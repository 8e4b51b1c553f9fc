import DbClinic.Persistence.Records

/-!
What a backend stores for a record saved into it, and the map of metadata that
the memory and SQLite backends keep: every record is stored under its own id,
and what was saved last under an id is stored.
-/

namespace DbClinic.Persistence

open Function

/-- A stored record carries the fields it was saved with; appending a message
may have raised its update time. -/
def SavedAs (record stored : SessionRecord) : Prop :=
  stored = { record with updatedAtMs := stored.updatedAtMs } ∧
    record.updatedAtMs ≤ stored.updatedAtMs

theorem SavedAs.refl (record : SessionRecord) : SavedAs record record := ⟨rfl, Nat.le_refl _⟩

variable {metas : KeyMap String SessionRecord} {stored : SessionRecord}
variable {saved : String → Option SessionRecord} {sid : String}

theorem SavedAs.touch {record : SessionRecord} (h : SavedAs record stored) {time : Nat}
    (htime : record.updatedAtMs ≤ time) : SavedAs record { stored with updatedAtMs := time } := by
  refine ⟨?_, htime⟩
  rw [h.1]

theorem filter_sortByKey {items : List SessionRecord}
    (h : items.filter (fun r => r.sessionId = sid) = [stored]) :
    (sortByKey SessionRecord.createdAtMs items).filter (fun r => r.sessionId = sid) =
      [stored] := by
  have hperm := (sortByKey_perm SessionRecord.createdAtMs items).filter fun r =>
    decide (r.sessionId = sid)
  rw [h] at hperm
  exact List.perm_singleton.mp hperm

/-- A map of metadata in which every record is stored under its own id, and
what was saved is stored. -/
structure MetaInv (metas : KeyMap String SessionRecord) (saved : String → Option SessionRecord) :
    Prop where
  own : ∀ e ∈ metas.entries, e.2.sessionId = e.1
  found : ∀ sid record, saved sid = some record →
    ∃ stored, metas.get sid = some stored ∧ SavedAs record stored

theorem metaInv_empty : MetaInv .empty fun _ => none := by
  constructor
  · intro e he
    cases he
  · intro sid record h
    cases h

theorem metaInv_mem (hown : ∀ e ∈ metas.entries, e.2.sessionId = e.1)
    (hget : metas.get sid = some stored) :
    stored.sessionId = sid :=
  hown (sid, stored) ((metas.get_eq_some_iff sid stored).mp hget)

private theorem own_iff (metas : KeyMap String SessionRecord) :
    (∀ e ∈ metas.entries, e.2.sessionId = e.1) ↔
      ∀ sid stored, metas.get sid = some stored → stored.sessionId = sid := by
  constructor
  · exact fun hown sid stored hget => metaInv_mem hown hget
  · rintro h ⟨sid, stored⟩ he
    exact h sid stored ((metas.get_eq_some_iff sid stored).mpr he)

theorem MetaInv.insert (h : MetaInv metas saved) (record : SessionRecord) :
    MetaInv (metas.insert record.sessionId record)
      (Function.update saved record.sessionId (some record)) := by
  constructor
  · rw [own_iff]
    intro sid stored hget
    rw [KeyMap.get_insert] at hget
    split at hget
    · cases hget
      exact (‹sid = record.sessionId›).symm
    · exact metaInv_mem h.own hget
  · intro sid r hr
    by_cases hsid : sid = record.sessionId
    · subst hsid
      rw [update_self] at hr
      cases hr
      exact ⟨record, by simp, SavedAs.refl record⟩
    · rw [update_of_ne hsid] at hr
      obtain ⟨stored, hget, has⟩ := h.found sid r hr
      exact ⟨stored, by rwa [KeyMap.get_insert_of_ne _ _ hsid], has⟩

theorem MetaInv.erase (h : MetaInv metas saved) (gone : String) :
    MetaInv (metas.erase gone) (Function.update saved gone none) := by
  constructor
  · rw [own_iff]
    intro sid stored hget
    rw [KeyMap.get_erase] at hget
    split at hget
    · cases hget
    · exact metaInv_mem h.own hget
  · intro sid r hr
    by_cases hsid : sid = gone
    · subst hsid
      rw [update_self] at hr
      cases hr
    · rw [update_of_ne hsid] at hr
      obtain ⟨stored, hget, has⟩ := h.found sid r hr
      exact ⟨stored, by rwa [KeyMap.get_erase_of_ne _ hsid], has⟩

theorem MetaInv.forget (h : MetaInv metas saved) (gone : String) :
    MetaInv metas (Function.update saved gone none) := by
  refine ⟨h.own, fun sid r hr => ?_⟩
  by_cases hsid : sid = gone
  · subst hsid
    rw [update_self] at hr
    cases hr
  · rw [update_of_ne hsid] at hr
    exact h.found sid r hr

theorem MetaInv.touch (h : MetaInv metas saved) (hget : metas.get sid = some stored) {time : Nat}
    (htime : ∀ record, saved sid = some record → record.updatedAtMs ≤ time) :
    MetaInv (metas.insert sid { stored with updatedAtMs := time }) saved := by
  constructor
  · rw [own_iff]
    intro other s hs
    rw [KeyMap.get_insert] at hs
    split at hs
    · cases hs
      have hid : stored.sessionId = sid := metaInv_mem h.own hget
      rw [‹other = sid›]
      exact hid
    · exact metaInv_mem h.own hs
  · intro other r hr
    obtain ⟨s, hs, has⟩ := h.found other r hr
    by_cases hother : other = sid
    · subst hother
      rw [hget] at hs
      cases hs
      exact ⟨_, KeyMap.get_insert_self _ _ _, has.touch (htime r hr)⟩
    · exact ⟨s, by rwa [KeyMap.get_insert_of_ne _ _ hother], has⟩

theorem MetaInv.listed (h : MetaInv metas saved) (hget : metas.get sid = some stored) :
    (sortByKey SessionRecord.createdAtMs metas.values).filter (fun r => r.sessionId = sid) =
      [stored] := by
  apply filter_sortByKey
  rw [metas.values_filter_key SessionRecord.sessionId h.own sid, hget]
  rfl

end DbClinic.Persistence
