import DbClinic.Cli.FencePairs

/-!
How the rebuilt fences nest. All pairs are lengthened from the lengths that were
there before, so that a block can get the length of a block inside it, and an
opener the length of a fence before it that nothing closed. The second time, what
was rebuilt is paired as before where no opener that is lengthened reaches the
fence that it lies on; then nothing is rewritten again.
-/

namespace DbClinic.Cli

open List
open StackPairing (pairing pairing_map pair_between pair_lt pair_of_closes pair_of_stack
  closes_of_pair not_closer pair_above_top head_of_unpaired mem_of_stack)

/-- The closer is not shorter than the opener, and the fences inside are shorter. -/
def StrictIn (fenceInfo : List (Option FenceLine)) (pair : FencePair) : Prop :=
  ∃ opener ∈ fenceInfo[pair.openerIdx]?.join, ∃ closer ∈ fenceInfo[pair.closerIdx]?.join,
    opener.len ≤ closer.len ∧ ∀ e ∈ entries fenceInfo, pair.openerIdx < e.lineIdx →
      e.lineIdx < pair.closerIdx → e.fence.len < opener.len

instance (fenceInfo : List (Option FenceLine)) (pair : FencePair) :
    Decidable (StrictIn fenceInfo pair) := by
  delta StrictIn
  infer_instance

/-- The code finds that the opener is too short. -/
def FencePair.IsLengthened (fenceInfo : List (Option FenceLine)) (pair : FencePair) : Prop :=
  ∃ opener ∈ fenceInfo[pair.openerIdx]?.join, opener.len ≤ pair.innerMax

/-- Where a block that is lengthened has a fence inside that is as long as any in
the block around it, the latter is longer than these by two at least. -/
def RoomAround (fenceInfo : List (Option FenceLine)) : Prop :=
  ∀ outer ∈ pairFences fenceInfo, ∀ inner ∈ pairFences fenceInfo,
    outer.openerIdx < inner.openerIdx → inner.closerIdx < outer.closerIdx →
    inner.IsLengthened fenceInfo → inner.innerMax = outer.innerMax →
    ∀ opener ∈ fenceInfo[outer.openerIdx]?.join, outer.innerMax + 1 < opener.len

instance (fenceInfo : List (Option FenceLine)) (pair : FencePair) :
    Decidable (pair.IsLengthened fenceInfo) :=
  inferInstanceAs (Decidable (∃ opener ∈ fenceInfo[pair.openerIdx]?.join,
    opener.len ≤ pair.innerMax))

instance (fenceInfo : List (Option FenceLine)) : Decidable (RoomAround fenceInfo) := by
  delta RoomAround
  infer_instance

section

variable {markdown : List Char} {fenceInfo : List (Option FenceLine)}
variable {p q : StackEntry × StackEntry} {e : StackEntry}

theorem entriesFrom_mapIdx (g : Nat → FenceLine → FenceLine) (k : Nat)
    (infos : List (Option FenceLine)) :
    entriesFrom k (infos.mapIdx fun i info => info.map (g (k + i))) =
      (entriesFrom k infos).map fun e => ⟨e.lineIdx, g e.lineIdx e.fence⟩ := by
  induction infos generalizing k with
  | nil => rfl
  | cons info infos ih =>
    have hshift : (fun i (info : Option FenceLine) => info.map (g (k + (i + 1)))) =
        fun i info => info.map (g (k + 1 + i)) := by
      funext i info
      rw [Nat.add_right_comm, Nat.add_assoc]
    rw [mapIdx_cons, hshift]
    cases info with
    | none => exact ih (k + 1)
    | some fl => exact congrArg _ (ih (k + 1))

theorem entries_normalize (markdown : List Char) :
    entries (fenceInfoOf (normalizeNestedFences markdown)) =
      (entries (fenceInfoOf markdown)).map (relabel (fenceInfoOf markdown)) := by
  have hinfo : fenceInfoOf (normalizeNestedFences markdown) =
      (fenceInfoOf markdown).mapIdx fun i info => info.map fun f =>
        f.withLen (newLen (fenceInfoOf markdown) ⟨0 + i, f⟩) := by
    apply ext_getElem?
    intro i
    rw [getElem?_fenceInfo_normalize, getElem?_mapIdx, Nat.zero_add]
  rw [hinfo]
  exact entriesFrom_mapIdx (fun i f => f.withLen (newLen (fenceInfoOf markdown) ⟨i, f⟩)) 0 _

theorem mem_pairFences {pair : FencePair} :
    pair ∈ pairFences fenceInfo ↔ ∃ p ∈ entryPairs fenceInfo, toPair fenceInfo p = pair := by
  rw [pairFences_eq, mem_map]

theorem join_of_entry (he : e ∈ entries fenceInfo) :
    fenceInfo[e.lineIdx]?.join = some e.fence := by
  rw [mem_entries.mp he]
  rfl

theorem isLengthened_toPair (hp : p ∈ entryPairs fenceInfo) :
    (toPair fenceInfo p).IsLengthened fenceInfo ↔ Lengthened fenceInfo p := by
  have hopener := join_of_entry (mem_of_entryPair hp).1
  constructor
  · rintro ⟨opener, hget, hlen⟩
    cases hopener.symm.trans hget
    exact hlen
  · intro h
    exact ⟨p.1.fence, hopener, h⟩

theorem roomAround_iff : RoomAround fenceInfo ↔
    ∀ p ∈ entryPairs fenceInfo, ∀ q ∈ entryPairs fenceInfo, p.1.lineIdx < q.1.lineIdx →
      q.2.lineIdx < p.2.lineIdx → Lengthened fenceInfo q →
      innerMax fenceInfo q.1.lineIdx q.2.lineIdx = innerMax fenceInfo p.1.lineIdx p.2.lineIdx →
      innerMax fenceInfo p.1.lineIdx p.2.lineIdx + 1 < p.1.fence.len := by
  constructor
  · intro h p hp q hq hopener hcloser hlonger heq
    exact h _ (mem_pairFences.mpr ⟨p, hp, rfl⟩) _ (mem_pairFences.mpr ⟨q, hq, rfl⟩) hopener hcloser
      ((isLengthened_toPair hq).mpr hlonger) heq _ (join_of_entry (mem_of_entryPair hp).1)
  · intro h outer houter inner hinner hopener hcloser hlonger heq opener hget
    obtain ⟨p, hp, rfl⟩ := mem_pairFences.mp houter
    obtain ⟨q, hq, rfl⟩ := mem_pairFences.mp hinner
    cases (join_of_entry (mem_of_entryPair hp).1).symm.trans hget
    exact h p hp q hq hopener hcloser ((isLengthened_toPair hq).mp hlonger) heq

/-- The lengths that a pair has after the rebuild. -/
def StrictAfter (fenceInfo : List (Option FenceLine)) (p : StackEntry × StackEntry) : Prop :=
  newLen fenceInfo p.1 ≤ newLen fenceInfo p.2 ∧ ∀ e ∈ entries fenceInfo,
    p.1.lineIdx < e.lineIdx → e.lineIdx < p.2.lineIdx → newLen fenceInfo e < newLen fenceInfo p.1

theorem strictIn_iff (hp : p ∈ entryPairs (fenceInfoOf markdown)) :
    StrictIn (fenceInfoOf (normalizeNestedFences markdown)) (toPair (fenceInfoOf markdown) p) ↔
      StrictAfter (fenceInfoOf markdown) p := by
  have hget (e : StackEntry) (he : e ∈ entries (fenceInfoOf markdown)) :
      (fenceInfoOf (normalizeNestedFences markdown))[e.lineIdx]?.join =
        some (relabel (fenceInfoOf markdown) e).fence := by
    apply join_of_entry (e := relabel (fenceInfoOf markdown) e)
    rw [entries_normalize]
    exact mem_map_of_mem he
  obtain ⟨hopener, hcloser⟩ := mem_of_entryPair hp
  constructor
  · rintro ⟨opener, hget₁, closer, hget₂, hle, hinside⟩
    cases (hget p.1 hopener).symm.trans hget₁
    cases (hget p.2 hcloser).symm.trans hget₂
    refine ⟨hle, fun e he => hinside (relabel _ e) ?_⟩
    rw [entries_normalize]
    exact mem_map_of_mem he
  · rintro ⟨hle, hinside⟩
    refine ⟨_, hget p.1 hopener, _, hget p.2 hcloser, hle, fun e he => ?_⟩
    rw [entries_normalize] at he
    obtain ⟨t, ht, rfl⟩ := mem_map.mp he
    exact hinside t ht

theorem innerMax_mono {o c o' c' : Nat} (ho : o ≤ o') (hc : c' ≤ c) :
    innerMax fenceInfo o' c' ≤ innerMax fenceInfo o c := by
  apply innerMax_le.mpr
  intro e he hafter hbefore
  exact innerMax_le.mp (Nat.le_refl _) e he (by omega) (by omega)

theorem newLen_opener (hp : p ∈ entryPairs fenceInfo) :
    innerMax fenceInfo p.1.lineIdx p.2.lineIdx < newLen fenceInfo p.1 := by
  by_cases h : Lengthened fenceInfo p
  · rw [newLen_of_lengthened hp h (.inl rfl)]
    omega
  · rw [newLen_of_short hp h (.inl rfl)]
    unfold Lengthened at h
    omega

theorem newLen_opener_le (hp : p ∈ entryPairs fenceInfo) :
    newLen fenceInfo p.1 ≤ newLen fenceInfo p.2 := by
  by_cases h : Lengthened fenceInfo p
  · rw [newLen_of_lengthened hp h (.inl rfl), newLen_of_lengthened hp h (.inr rfl)]
  · rw [newLen_of_short hp h (.inl rfl), newLen_of_short hp h (.inr rfl)]
    exact (closesTop_iff.mp (closes_of_pair hp)).2.2

theorem strictAfter_iff : (∀ p ∈ entryPairs fenceInfo, StrictAfter fenceInfo p) ↔
    RoomAround fenceInfo := by
  rw [roomAround_iff]
  constructor
  · intro h p hp q hq hopener hcloser hlonger heq
    have hinside := (h p hp).2 q.1 (mem_of_entryPair hq).1 hopener
      (Nat.lt_trans (pair_lt (sorted_entries fenceInfo) hq) hcloser)
    rw [newLen_of_lengthened hq hlonger (.inl rfl), heq] at hinside
    by_cases hp' : Lengthened fenceInfo p
    · rw [newLen_of_lengthened hp hp' (.inl rfl)] at hinside
      exact absurd hinside (Nat.lt_irrefl _)
    · rwa [newLen_of_short hp hp' (.inl rfl)] at hinside
  · intro h p hp
    refine ⟨newLen_opener_le hp, fun e he hafter hbefore => ?_⟩
    obtain ⟨q, hq, hend, hopener, hcloser⟩ :=
      pair_between (sorted_entries fenceInfo) hp he hafter hbefore
    have hlong := newLen_opener hp
    by_cases hq' : Lengthened fenceInfo q
    · rw [newLen_of_lengthened hq hq' hend]
      have hmono : innerMax fenceInfo q.1.lineIdx q.2.lineIdx ≤
          innerMax fenceInfo p.1.lineIdx p.2.lineIdx :=
        innerMax_mono (Nat.le_of_lt hopener) (Nat.le_of_lt hcloser)
      rcases Nat.lt_or_eq_of_le hmono with hlt | heq
      · omega
      · have hroom := h p hp q hq hopener hcloser hq' heq
        have hp' : ¬Lengthened fenceInfo p := by
          unfold Lengthened
          omega
        rw [newLen_of_short hp hp' (.inl rfl)]
        omega
    · rw [newLen_of_short hq hq' hend]
      have hinner := innerMax_le.mp (Nat.le_refl _) e he hafter hbefore
      omega

end

def Unpaired (fenceInfo : List (Option FenceLine)) (i : Nat) : Prop :=
  ∀ pair ∈ pairFences fenceInfo, ¬(i = pair.openerIdx ∨ i = pair.closerIdx)

instance (fenceInfo : List (Option FenceLine)) (i : Nat) : Decidable (Unpaired fenceInfo i) :=
  List.decidableBAll _ _

/-- A bare opener that is lengthened stays shorter than an unpaired fence of its
character before it, if all fences between them are in pairs between them. -/
def NoneOvertaken (fenceInfo : List (Option FenceLine)) : Prop :=
  ∀ t ∈ entries fenceInfo, Unpaired fenceInfo t.lineIdx → ∀ pair ∈ pairFences fenceInfo,
    t.lineIdx < pair.openerIdx → pair.IsLengthened fenceInfo →
    (∀ e ∈ entries fenceInfo, t.lineIdx < e.lineIdx → e.lineIdx < pair.openerIdx →
      ∃ between ∈ pairFences fenceInfo,
        (e.lineIdx = between.openerIdx ∨ e.lineIdx = between.closerIdx) ∧
        between.closerIdx < pair.openerIdx) →
    ∀ opener ∈ fenceInfo[pair.openerIdx]?.join, opener.hasInfo = false →
      opener.char = t.fence.char → pair.innerMax + 1 < t.fence.len

instance (fenceInfo : List (Option FenceLine)) : Decidable (NoneOvertaken fenceInfo) := by
  delta NoneOvertaken
  infer_instance

section

variable {markdown : List Char} {fenceInfo : List (Option FenceLine)}
variable {p q : StackEntry × StackEntry} {e t : StackEntry}

theorem idx_end_iff (he : e ∈ entries fenceInfo) (hp : p ∈ entryPairs fenceInfo) :
    (e.lineIdx = (toPair fenceInfo p).openerIdx ∨ e.lineIdx = (toPair fenceInfo p).closerIdx) ↔
      (e = p.1 ∨ e = p.2) := by
  obtain ⟨hopener, hcloser⟩ := mem_of_entryPair hp
  constructor
  · rintro (h | h)
    · exact .inl (entry_ext he hopener h)
    · exact .inr (entry_ext he hcloser h)
  · rintro (rfl | rfl)
    · exact .inl rfl
    · exact .inr rfl

theorem unpaired_iff (he : e ∈ entries fenceInfo) : Unpaired fenceInfo e.lineIdx ↔
    ∀ p ∈ entryPairs fenceInfo, ¬(e = p.1 ∨ e = p.2) := by
  constructor
  · intro h p hp hend
    exact h _ (mem_pairFences.mpr ⟨p, hp, rfl⟩) ((idx_end_iff he hp).mpr hend)
  · intro h pair hpair hend
    obtain ⟨p, hp, rfl⟩ := mem_pairFences.mp hpair
    exact h p hp ((idx_end_iff he hp).mp hend)

theorem noneOvertaken_iff : NoneOvertaken fenceInfo ↔
    ∀ t ∈ entries fenceInfo, (∀ p ∈ entryPairs fenceInfo, ¬(t = p.1 ∨ t = p.2)) →
      ∀ q ∈ entryPairs fenceInfo, t.lineIdx < q.1.lineIdx → Lengthened fenceInfo q →
      (∀ e ∈ entries fenceInfo, t.lineIdx < e.lineIdx → e.lineIdx < q.1.lineIdx →
        ∃ p ∈ entryPairs fenceInfo, (e = p.1 ∨ e = p.2) ∧ p.2.lineIdx < q.1.lineIdx) →
      q.1.fence.hasInfo = false → q.1.fence.char = t.fence.char →
        innerMax fenceInfo q.1.lineIdx q.2.lineIdx + 1 < t.fence.len := by
  constructor
  · intro h t ht hfree q hq hlt hlonger hbetween hbare hchar
    refine h t ht ((unpaired_iff ht).mpr hfree) _ (mem_pairFences.mpr ⟨q, hq, rfl⟩) hlt
      ((isLengthened_toPair hq).mpr hlonger) ?_ _ (join_of_entry (mem_of_entryPair hq).1)
      hbare hchar
    intro e he hafter hbefore
    obtain ⟨p, hp, hend, hclosed⟩ := hbetween e he hafter hbefore
    exact ⟨_, mem_pairFences.mpr ⟨p, hp, rfl⟩, (idx_end_iff he hp).mpr hend, hclosed⟩
  · intro h t ht hfree pair hpair hlt hlonger hbetween opener hget hbare hchar
    obtain ⟨q, hq, rfl⟩ := mem_pairFences.mp hpair
    cases (join_of_entry (mem_of_entryPair hq).1).symm.trans hget
    refine h t ht ((unpaired_iff ht).mp hfree) q hq hlt ((isLengthened_toPair hq).mp hlonger)
      ?_ hbare hchar
    intro e he hafter hbefore
    obtain ⟨between, hmem, hend, hclosed⟩ := hbetween e he hafter hbefore
    obtain ⟨p, hp, rfl⟩ := mem_pairFences.mp hmem
    exact ⟨p, hp, (idx_end_iff he hp).mp hend, hclosed⟩

theorem pushed_spec {front back : List StackEntry} {x top : StackEntry}
    (hsplit : entries fenceInfo = front ++ x :: back)
    (hstack : (pairing closesTop front).stack.head? = some top)
    (hcloses : closesTop top x = false) : top.lineIdx < x.lineIdx ∧
      ∀ p ∈ entryPairs fenceInfo, p.2 ≠ x ∧ p.2 ≠ top ∧ (p.1 = top → x.lineIdx < p.2.lineIdx) := by
  have hsorted := sorted_entries fenceInfo
  have hpairs : entryPairs fenceInfo = (pairing closesTop (front ++ x :: back)).pairs := by
    rw [entryPairs, hsplit]
  rw [hsplit] at hsorted
  obtain ⟨-, htail, hfront⟩ := pairwise_append.mp hsorted
  have htop := mem_of_mem_head? hstack
  refine ⟨hfront top (mem_of_stack htop) x mem_cons_self, fun p hp => ?_⟩
  rw [hpairs] at hp
  have hnever := not_closer hsorted hstack hcloses hp
  obtain ⟨htop', hlater⟩ := pair_of_stack hsorted htop hp
  refine ⟨hnever, htop', fun hopener => ?_⟩
  rcases mem_cons.mp (hlater hopener) with h | h
  · exact absurd h hnever
  · exact (pairwise_cons.mp htail).1 p.2 h

theorem newLen_pushed (hroom : RoomAround fenceInfo) (hreach : NoneOvertaken fenceInfo)
    {front back : List StackEntry} {x top : StackEntry}
    (hsplit : entries fenceInfo = front ++ x :: back)
    (hstack : (pairing closesTop front).stack.head? = some top)
    (hcloses : closesTop top x = false) (hbare : x.fence.hasInfo = false)
    (hchar : top.fence.char = x.fence.char) : newLen fenceInfo x < newLen fenceInfo top := by
  obtain ⟨hlt, hspec⟩ := pushed_spec hsplit hstack hcloses
  have hx : x ∈ entries fenceInfo := by simp [hsplit]
  have htop : top ∈ entries fenceInfo := by
    simp [hsplit, mem_of_stack (mem_of_mem_head? hstack)]
  by_cases hpaired : ∃ p ∈ entryPairs fenceInfo, p.1 = top
  · -- the line is inside the block of the top
    obtain ⟨p, hp, rfl⟩ := hpaired
    exact (strictAfter_iff.mpr hroom p hp).2 x hx hlt ((hspec p hp).2.2 rfl)
  · have hfree (p) (hp : p ∈ entryPairs fenceInfo) : ¬(top = p.1 ∨ top = p.2) := by
      rintro (rfl | rfl)
      · exact hpaired ⟨p, hp, rfl⟩
      · exact (hspec p hp).2.1 rfl
    rw [newLen_of_not htop fun p hp _ => hfree p hp]
    by_cases hrewritten : ∃ q ∈ entryPairs fenceInfo, Lengthened fenceInfo q ∧
        (x = q.1 ∨ x = q.2)
    · obtain ⟨q, hq, hlonger, rfl | rfl⟩ := hrewritten
      · rw [newLen_of_lengthened hq hlonger (.inl rfl)]
        refine noneOvertaken_iff.mp hreach top htop hfree q hq hlt hlonger ?_ hbare hchar.symm
        intro e he hafter hbefore
        have hsorted := sorted_entries fenceInfo
        rw [hsplit] at hsorted he
        rw [entryPairs, hsplit]
        exact pair_above_top hsorted hstack he hafter hbefore
      · exact absurd rfl (hspec q hq).1
    · rw [newLen_of_not hx fun q hq hlonger hend => hrewritten ⟨q, hq, hlonger, hend⟩]
      by_contra hle
      rw [closesTop_iff.mpr ⟨hbare, hchar, Nat.le_of_not_lt hle⟩] at hcloses
      cases hcloses

theorem closesTop_relabel (hroom : RoomAround fenceInfo) (hreach : NoneOvertaken fenceInfo)
    {front back : List StackEntry} {x top : StackEntry}
    (hsplit : entries fenceInfo = front ++ x :: back)
    (hstack : (pairing closesTop front).stack.head? = some top) :
    closesTop (relabel fenceInfo top) (relabel fenceInfo x) = closesTop top x := by
  cases hcloses : closesTop top x with
  | true =>
    have hp : (top, x) ∈ entryPairs fenceInfo := by
      rw [entryPairs, hsplit]
      exact pair_of_closes hstack hcloses
    obtain ⟨hbare, hchar, -⟩ := closesTop_iff.mp hcloses
    exact closesTop_iff.mpr ⟨hbare, hchar, newLen_opener_le hp⟩
  | false =>
    rw [← Bool.not_eq_true]
    intro hcloses'
    obtain ⟨hbare, hchar, hle⟩ : x.fence.hasInfo = false ∧ top.fence.char = x.fence.char ∧
      newLen fenceInfo top ≤ newLen fenceInfo x := closesTop_iff.mp hcloses'
    have hlt := newLen_pushed hroom hreach hsplit hstack hcloses hbare hchar
    omega

theorem entryPairs_normalize (hroom : RoomAround (fenceInfoOf markdown))
    (hreach : NoneOvertaken (fenceInfoOf markdown)) :
    entryPairs (fenceInfoOf (normalizeNestedFences markdown)) =
      (entryPairs (fenceInfoOf markdown)).map fun p =>
        (relabel (fenceInfoOf markdown) p.1, relabel (fenceInfoOf markdown) p.2) := by
  unfold entryPairs
  rw [entries_normalize, pairing_map fun front x back top hsplit hstack =>
    closesTop_relabel hroom hreach hsplit hstack]
  rfl

theorem normalize_normalize (hroom : RoomAround (fenceInfoOf markdown))
    (hreach : NoneOvertaken (fenceInfoOf markdown)) :
    normalizeNestedFences (normalizeNestedFences markdown) = normalizeNestedFences markdown := by
  have hnone : rewritesOf (fenceInfoOf (normalizeNestedFences markdown)) = [] := by
    rw [eq_nil_iff_forall_not_mem]
    rintro ⟨i, rewrite⟩ hmem
    obtain ⟨p', hp', hlonger, -⟩ := mem_rewritesOf.mp hmem
    rw [entryPairs_normalize hroom hreach] at hp'
    obtain ⟨p, hp, rfl⟩ := mem_map.mp hp'
    have hstrict := (strictAfter_iff.mpr hroom p hp).2
    have hopener := le_newLen (mem_of_entryPair hp).1 long_of_entry
    have hshort : innerMax (fenceInfoOf (normalizeNestedFences markdown)) p.1.lineIdx
        p.2.lineIdx ≤ newLen (fenceInfoOf markdown) p.1 - 1 := by
      apply innerMax_le.mpr
      intro e he hafter hbefore
      rw [entries_normalize] at he
      obtain ⟨t, ht, rfl⟩ := mem_map.mp he
      exact Nat.le_pred_of_lt (hstrict t ht hafter hbefore)
    unfold Lengthened at hlonger
    dsimp only [relabel, FenceLine.withLen_len] at hlonger
    omega
  conv_lhs => unfold normalizeNestedFences
  exact if_pos hnone

/-- The lines of the pairs that are found in what is rebuilt. -/
def SamePairs (markdown : List Char) : Prop :=
  (pairFences (fenceInfoOf (normalizeNestedFences markdown))).map
      (fun pair => (pair.openerIdx, pair.closerIdx)) =
    (pairFences (fenceInfoOf markdown)).map fun pair => (pair.openerIdx, pair.closerIdx)

theorem mem_lines {i j : Nat} : (i, j) ∈ (pairFences fenceInfo).map
    (fun pair => (pair.openerIdx, pair.closerIdx)) ↔
      ∃ p ∈ entryPairs fenceInfo, p.1.lineIdx = i ∧ p.2.lineIdx = j := by
  simp [pairFences_eq, toPair]

theorem samePairs_of_noneOvertaken (hroom : RoomAround (fenceInfoOf markdown))
    (hreach : NoneOvertaken (fenceInfoOf markdown)) : SamePairs markdown := by
  unfold SamePairs
  rw [pairFences_eq, pairFences_eq, entryPairs_normalize hroom hreach]
  simp [toPair, relabel]

theorem SamePairs.back (h : SamePairs markdown)
    (hp : p ∈ entryPairs (fenceInfoOf (normalizeNestedFences markdown))) :
    ∃ q ∈ entryPairs (fenceInfoOf markdown), q.1.lineIdx = p.1.lineIdx ∧
      q.2.lineIdx = p.2.lineIdx := by
  have hlines := mem_lines.mpr ⟨p, hp, rfl, rfl⟩
  rw [h] at hlines
  exact mem_lines.mp hlines

theorem SamePairs.unpaired (h : SamePairs markdown) (ht : t ∈ entries (fenceInfoOf markdown))
    (hfree : ∀ p ∈ entryPairs (fenceInfoOf markdown), ¬(t = p.1 ∨ t = p.2))
    (hp : p ∈ entryPairs (fenceInfoOf (normalizeNestedFences markdown))) :
    ¬(relabel (fenceInfoOf markdown) t = p.1 ∨ relabel (fenceInfoOf markdown) t = p.2) := by
  obtain ⟨q, hq, hopener, hcloser⟩ := h.back hp
  rintro (heq | heq)
  · rw [← heq] at hopener
    exact hfree q hq (.inl (entry_ext ht (mem_of_entryPair hq).1 hopener.symm))
  · rw [← heq] at hcloser
    exact hfree q hq (.inr (entry_ext ht (mem_of_entryPair hq).2 hcloser.symm))

theorem SamePairs.again (h : SamePairs markdown) (he : e ∈ entries (fenceInfoOf markdown))
    (hp : p ∈ entryPairs (fenceInfoOf markdown)) (hend : e = p.1 ∨ e = p.2) :
    ∃ q ∈ entryPairs (fenceInfoOf (normalizeNestedFences markdown)),
      (relabel (fenceInfoOf markdown) e = q.1 ∨ relabel (fenceInfoOf markdown) e = q.2) ∧
        q.2.lineIdx = p.2.lineIdx := by
  have hlines := mem_lines.mpr ⟨p, hp, rfl, rfl⟩
  rw [← h] at hlines
  obtain ⟨q, hq, hopener, hcloser⟩ := mem_lines.mp hlines
  have hnew : relabel (fenceInfoOf markdown) e ∈
      entries (fenceInfoOf (normalizeNestedFences markdown)) := by
    rw [entries_normalize]
    exact mem_map_of_mem he
  refine ⟨q, hq, ?_, hcloser⟩
  rcases hend with rfl | rfl
  · exact .inl (entry_ext hnew (mem_of_entryPair hq).1 hopener.symm)
  · exact .inr (entry_ext hnew (mem_of_entryPair hq).2 hcloser.symm)

theorem noneOvertaken_of_samePairs (h : SamePairs markdown) :
    NoneOvertaken (fenceInfoOf markdown) := by
  apply noneOvertaken_iff.mpr
  intro t ht hfree q hq hlt hlonger hbetween hbare hchar
  by_contra hreach
  obtain ⟨front, back, hsplit⟩ := append_of_mem (mem_of_entryPair hq).1
  have hsorted := sorted_entries (fenceInfoOf markdown)
  rw [hsplit] at hsorted
  obtain ⟨-, htail, hearlier⟩ := pairwise_append.mp hsorted
  have hfront : t ∈ front := by
    rw [hsplit] at ht
    rcases mem_append.mp ht with ht | ht
    · exact ht
    · rcases mem_cons.mp ht with rfl | ht
      · exact absurd hlt (Nat.lt_irrefl _)
      · exact absurd hlt (Nat.lt_asymm ((pairwise_cons.mp htail).1 t ht))
  have hnew := entries_normalize markdown
  rw [hsplit, map_append, map_cons] at hnew
  have hnewSorted := sorted_entries (fenceInfoOf (normalizeNestedFences markdown))
  rw [hnew] at hnewSorted
  have hpairs : entryPairs (fenceInfoOf (normalizeNestedFences markdown)) =
      (pairing closesTop (front.map (relabel (fenceInfoOf markdown)) ++
        relabel (fenceInfoOf markdown) q.1 ::
          back.map (relabel (fenceInfoOf markdown)))).pairs := by
    rw [entryPairs, hnew]
  have hhead : (pairing closesTop (front.map (relabel (fenceInfoOf markdown)))).stack.head? =
      some (relabel (fenceInfoOf markdown) t) := by
    apply head_of_unpaired hnewSorted (mem_map_of_mem hfront)
    · exact fun p hp => h.unpaired ht hfree (hpairs ▸ hp)
    · intro z hz hafter
      obtain ⟨e, he, rfl⟩ := mem_map.mp hz
      have hmem : e ∈ entries (fenceInfoOf markdown) := by simp [hsplit, he]
      obtain ⟨p, hp, hend, hclosed⟩ :=
        hbetween e hmem hafter (hearlier e he q.1 mem_cons_self)
      obtain ⟨p', hp', hend', hcloser⟩ := h.again hmem hp hend
      rw [← hcloser] at hclosed
      exact ⟨p', hpairs ▸ hp', hend', hclosed⟩
  have hle : newLen (fenceInfoOf markdown) t ≤ newLen (fenceInfoOf markdown) q.1 := by
    rw [newLen_of_not ht fun p hp _ => hfree p hp, newLen_of_lengthened hq hlonger (.inl rfl)]
    omega
  have hmem : (relabel (fenceInfoOf markdown) t, relabel (fenceInfoOf markdown) q.1) ∈
      entryPairs (fenceInfoOf (normalizeNestedFences markdown)) :=
    hpairs ▸ pair_of_closes hhead (closesTop_iff.mpr ⟨hbare, hchar.symm, hle⟩)
  exact h.unpaired ht hfree hmem (.inl rfl)

end

theorem forall₂_mapIdx {R : List Char → List Char → Prop} {g : Nat → List Char → List Char}
    {lines : List (List Char)} (h : ∀ i line, lines[i]? = some line → R line (g i line)) :
    List.Forall₂ R lines (lines.mapIdx g) := by
  induction lines generalizing g with
  | nil => exact .nil
  | cons line lines ih =>
    rw [mapIdx_cons]
    exact .cons (h 0 line rfl) (ih fun i line hget => h (i + 1) line hget)

/-- Lines change in the lengths of their markers only. The pairs that were found
are strict exactly where there is room around what is lengthened. Where there
is, the same pairs are found again exactly if no fence is overtaken, and then
nothing changes the second time. -/
theorem normalizeNestedFences_spec (markdown : List Char) :
    List.Forall₂ SameUpToLength (splitInclusive markdown)
      (splitInclusive (normalizeNestedFences markdown)) ∧
    ((∀ pair ∈ pairFences (fenceInfoOf markdown),
      StrictIn (fenceInfoOf (normalizeNestedFences markdown)) pair) ↔
        RoomAround (fenceInfoOf markdown)) ∧
    (RoomAround (fenceInfoOf markdown) →
      (SamePairs markdown ↔ NoneOvertaken (fenceInfoOf markdown)) ∧
      (NoneOvertaken (fenceInfoOf markdown) →
        normalizeNestedFences (normalizeNestedFences markdown) =
          normalizeNestedFences markdown)) := by
  refine ⟨?_, ?_, fun hroom => ⟨⟨noneOvertaken_of_samePairs, samePairs_of_noneOvertaken hroom⟩,
    normalize_normalize hroom⟩⟩
  · rw [lines_normalize]
    exact forall₂_mapIdx fun i line h => (rebuildLine_spec h).1
  · rw [← strictAfter_iff]
    constructor
    · intro h p hp
      exact (strictIn_iff hp).mp (h _ (mem_pairFences.mpr ⟨p, hp, rfl⟩))
    · intro h pair hpair
      obtain ⟨p, hp, rfl⟩ := mem_pairFences.mp hpair
      exact (strictIn_iff hp).mpr (h p hp)

/-- A block that is lengthened, in a block with room around it. -/
theorem roomy_fences :
    normalizeNestedFences "`````md\n```a\n```b\n```\n```\n`````".toList =
      "`````md\n````a\n```b\n```\n````\n`````".toList ∧
    (∀ pair ∈ pairFences (fenceInfoOf "`````md\n```a\n```b\n```\n```\n`````".toList),
      StrictIn (fenceInfoOf (normalizeNestedFences
        "`````md\n```a\n```b\n```\n```\n`````".toList)) pair) ∧
    normalizeNestedFences (normalizeNestedFences
        "`````md\n```a\n```b\n```\n```\n`````".toList) =
      normalizeNestedFences "`````md\n```a\n```b\n```\n```\n`````".toList := by
  obtain ⟨-, hstrict, hagain⟩ :=
    normalizeNestedFences_spec "`````md\n```a\n```b\n```\n```\n`````".toList
  have hroom : RoomAround (fenceInfoOf "`````md\n```a\n```b\n```\n```\n`````".toList) := by
    decide
  exact ⟨by decide, hstrict.mpr hroom, (hagain hroom).2 (by decide +kernel)⟩

/-- Two blocks around a third one get the same length, and the outer one is
lengthened again the second time. -/
theorem tight_fences :
    ¬(∀ pair ∈ pairFences (fenceInfoOf "```a\n```b\n```c\n```\n```\n```".toList),
      StrictIn (fenceInfoOf (normalizeNestedFences "```a\n```b\n```c\n```\n```\n```".toList))
        pair) ∧
    normalizeNestedFences (normalizeNestedFences "```a\n```b\n```c\n```\n```\n```".toList) ≠
      normalizeNestedFences "```a\n```b\n```c\n```\n```\n```".toList := by
  constructor
  · decide
  · decide

end DbClinic.Cli
