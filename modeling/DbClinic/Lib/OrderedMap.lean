import Mathlib.Tactic

/-!
Finite maps with numeric keys, listed in the order of the keys: an in-order
map of a program, whose iteration order can be seen.
-/

namespace DbClinic

open List

/-- An ordered map. The field `sorted` excludes a second binding of a key. -/
structure OrderedMap (V : Type*) where
  entries : List (Nat × V)
  sorted : (entries.map Prod.fst).Pairwise (· < ·)

namespace OrderedMap

variable {V : Type*}

def empty : OrderedMap V := ⟨[], List.Pairwise.nil⟩

def get (m : OrderedMap V) (key : Nat) : Option V :=
  (m.entries.find? fun e => e.1 = key).map Prod.snd

/-- Bind a key to what `f` makes of its value, at its place in the order. -/
def upsertEntry (key : Nat) (f : Option V → V) : List (Nat × V) → List (Nat × V)
  | [] => [(key, f none)]
  | (k, v) :: rest =>
    if key < k then (key, f none) :: (k, v) :: rest
    else if key = k then (key, f (some v)) :: rest
    else (k, v) :: upsertEntry key f rest

theorem mem_keys_upsertEntry {key k : Nat} {f : Option V → V} {entries : List (Nat × V)} :
    k ∈ (upsertEntry key f entries).map Prod.fst ↔ k = key ∨ k ∈ entries.map Prod.fst := by
  induction entries with
  | nil => simp [upsertEntry]
  | cons e rest ih =>
    obtain ⟨k', v⟩ := e
    unfold upsertEntry
    split
    · simp
    · split
      · rename_i heq
        subst heq
        simp
      · rw [map_cons, mem_cons, ih, map_cons, mem_cons]
        exact or_left_comm

theorem upsertEntry_sorted (key : Nat) (f : Option V → V) {entries : List (Nat × V)}
    (h : (entries.map Prod.fst).Pairwise (· < ·)) :
    ((upsertEntry key f entries).map Prod.fst).Pairwise (· < ·) := by
  induction entries with
  | nil => simp [upsertEntry]
  | cons e rest ih =>
    obtain ⟨k', v⟩ := e
    rw [map_cons, pairwise_cons] at h
    obtain ⟨hhead, hrest⟩ := h
    unfold upsertEntry
    split
    · rename_i hlt
      rw [map_cons, map_cons, pairwise_cons, pairwise_cons]
      refine ⟨fun k hk => ?_, hhead, hrest⟩
      rcases mem_cons.mp hk with rfl | hk
      · exact hlt
      · exact hlt.trans (hhead k hk)
    · rename_i hnot
      split
      · rename_i heq
        subst heq
        rw [map_cons, pairwise_cons]
        exact ⟨hhead, hrest⟩
      · rename_i hne
        rw [map_cons, pairwise_cons]
        refine ⟨fun k hk => ?_, ih hrest⟩
        rcases mem_keys_upsertEntry.mp hk with rfl | hk
        · simp only at *
          omega
        · exact hhead k hk

def upsert (m : OrderedMap V) (key : Nat) (f : Option V → V) : OrderedMap V :=
  ⟨upsertEntry key f m.entries, upsertEntry_sorted key f m.sorted⟩

theorem nodup (m : OrderedMap V) : (m.entries.map Prod.fst).Nodup :=
  m.sorted.imp fun h => Nat.ne_of_lt h

theorem get_eq_some_iff (m : OrderedMap V) (key : Nat) (value : V) :
    m.get key = some value ↔ (key, value) ∈ m.entries := by
  unfold get
  constructor
  · intro h
    obtain ⟨e, hfind, rfl⟩ := Option.map_eq_some_iff.mp h
    have hkey : e.1 = key := by simpa using find?_some hfind
    exact hkey ▸ mem_of_find?_eq_some hfind
  · intro h
    have hsome : (m.entries.find? fun e => e.1 = key).isSome = true := by
      rw [find?_isSome]
      exact ⟨(key, value), h, by simp⟩
    obtain ⟨e, hfind⟩ := Option.isSome_iff_exists.mp hsome
    have hkey : e.1 = key := by simpa using find?_some hfind
    have heq : e = (key, value) :=
      inj_on_of_nodup_map m.nodup (mem_of_find?_eq_some hfind) h hkey
    rw [hfind, heq]
    rfl

theorem get_upsert (m : OrderedMap V) (key other : Nat) (f : Option V → V) :
    (m.upsert key f).get other = if other = key then some (f (m.get key)) else m.get other := by
  obtain ⟨entries, hsorted⟩ := m
  unfold upsert get
  dsimp only
  induction entries with
  | nil =>
    rcases eq_or_ne other key with rfl | h
    · simp [upsertEntry]
    · simp [upsertEntry, h, h.symm]
  | cons e rest ih =>
    obtain ⟨k, v⟩ := e
    rw [map_cons, pairwise_cons] at hsorted
    obtain ⟨hhead, hrest⟩ := hsorted
    unfold upsertEntry
    split
    · rename_i hlt
      have hnone : ((k, v) :: rest).find? (fun e => e.1 = key) = none := by
        rw [find?_eq_none]
        rintro ⟨k', v'⟩ hmem
        rcases mem_cons.mp hmem with heq | hmem
        · cases heq
          simp only [decide_eq_true_eq]
          omega
        · have hlt' := hhead k' (mem_map.mpr ⟨_, hmem, rfl⟩)
          simp only [decide_eq_true_eq]
          simp only at hlt'
          omega
      by_cases h : other = key
      · subst h
        simp only [find?_cons_of_pos, decide_true, Option.map_some, if_true, hnone,
          Option.map_none]
      · rw [find?_cons_of_neg (by simpa using fun heq : key = other => h heq.symm), if_neg h]
    · split
      · rename_i heq
        subst heq
        rcases eq_or_ne other key with rfl | h
        · simp
        · simp [h, h.symm]
      · rename_i hne
        by_cases hk : k = other
        · subst hk
          have hne' : k ≠ key := fun heq => hne heq.symm
          simp [hne']
        · rw [find?_cons_of_neg (by simpa using hk), ih hrest]
          by_cases h : other = key
          · subst h
            simp [hk]
          · simp [h, hk]

def mapValues (m : OrderedMap V) (f : Nat → V → V) : OrderedMap V where
  entries := m.entries.map fun e => (e.1, f e.1 e.2)
  sorted := by
    rw [map_map]
    exact m.sorted

theorem get_mapValues (m : OrderedMap V) (f : Nat → V → V) (key : Nat) :
    (m.mapValues f).get key = (m.get key).map (f key) := by
  ext value
  rw [get_eq_some_iff, Option.map_eq_some_iff]
  constructor
  · intro h
    obtain ⟨⟨k, v⟩, hmem, heq⟩ := mem_map.mp h
    cases heq
    exact ⟨v, (get_eq_some_iff m k v).mpr hmem, rfl⟩
  · rintro ⟨v, hget, rfl⟩
    exact mem_map.mpr ⟨(key, v), (get_eq_some_iff m key v).mp hget, rfl⟩

end OrderedMap

end DbClinic
