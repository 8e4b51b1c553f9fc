import DbClinic.Cli.NestedFences

/-!
The pairs of fence lines that are found, and what is rewritten for them. A line
is in one pair at most, so that its marker gets the length that this pair asks
for.
-/

namespace DbClinic.Cli

open List
open StackPairing (State run pairing mem_of_pair pair_unique)

def entriesFrom (i : Nat) : List (Option FenceLine) → List StackEntry
  | [] => []
  | none :: infos => entriesFrom (i + 1) infos
  | some fl :: infos => ⟨i, fl⟩ :: entriesFrom (i + 1) infos

def entries (fenceInfo : List (Option FenceLine)) : List StackEntry := entriesFrom 0 fenceInfo

def closesTop (top entry : StackEntry) : Bool :=
  !entry.fence.hasInfo && top.fence.char = entry.fence.char && top.fence.len ≤ entry.fence.len

theorem closesTop_iff {top entry : StackEntry} : closesTop top entry = true ↔
    entry.fence.hasInfo = false ∧ top.fence.char = entry.fence.char ∧
      top.fence.len ≤ entry.fence.len := by
  simp [closesTop, and_assoc]

def toPair (fenceInfo : List (Option FenceLine)) (p : StackEntry × StackEntry) : FencePair :=
  ⟨p.1.lineIdx, p.2.lineIdx, innerMax fenceInfo p.1.lineIdx p.2.lineIdx⟩

def entryPairs (fenceInfo : List (Option FenceLine)) : List (StackEntry × StackEntry) :=
  (pairing closesTop (entries fenceInfo)).pairs

section

variable {infos fenceInfo : List (Option FenceLine)} {e t : StackEntry} {k : Nat}

theorem mem_entriesFrom : e ∈ entriesFrom k infos ↔
    k ≤ e.lineIdx ∧ infos[e.lineIdx - k]? = some (some e.fence) := by
  induction infos generalizing k with
  | nil => simp [entriesFrom]
  | cons info infos ih =>
    have hrest : e ∈ entriesFrom (k + 1) infos ↔
        k < e.lineIdx ∧ (info :: infos)[e.lineIdx - k]? = some (some e.fence) := by
      rw [ih]
      constructor
      · rintro ⟨hlt, hget⟩
        have hsub : e.lineIdx - k = e.lineIdx - (k + 1) + 1 := by omega
        exact ⟨hlt, by rw [hsub, getElem?_cons_succ, hget]⟩
      · rintro ⟨hlt, hget⟩
        have hsub : e.lineIdx - k = e.lineIdx - (k + 1) + 1 := by omega
        rw [hsub, getElem?_cons_succ] at hget
        exact ⟨hlt, hget⟩
    cases info with
    | none =>
      rw [entriesFrom, hrest]
      constructor
      · exact fun h => ⟨Nat.le_of_lt h.1, h.2⟩
      · rintro ⟨hle, hget⟩
        refine ⟨Nat.lt_of_le_of_ne hle fun heq => ?_, hget⟩
        rw [heq, Nat.sub_self] at hget
        cases hget
    | some fl =>
      rw [entriesFrom, mem_cons, hrest]
      constructor
      · rintro (rfl | h)
        · exact ⟨Nat.le_refl k, by simp⟩
        · exact ⟨Nat.le_of_lt h.1, h.2⟩
      · rintro ⟨hle, hget⟩
        rcases Nat.eq_or_lt_of_le hle with heq | hlt
        · left
          rw [← heq, Nat.sub_self] at hget
          cases e
          cases heq
          cases hget
          rfl
        · exact .inr ⟨hlt, hget⟩

theorem mem_entries : e ∈ entries fenceInfo ↔ fenceInfo[e.lineIdx]? = some (some e.fence) := by
  simp [entries, mem_entriesFrom]

theorem sorted_entriesFrom (k : Nat) (infos : List (Option FenceLine)) :
    (entriesFrom k infos).Pairwise (StackEntry.lineIdx · < StackEntry.lineIdx ·) := by
  induction infos generalizing k with
  | nil => exact List.Pairwise.nil
  | cons info infos ih =>
    cases info with
    | none => exact ih (k + 1)
    | some fl =>
      refine pairwise_cons.mpr ⟨fun e he => ?_, ih (k + 1)⟩
      exact (mem_entriesFrom.mp he).1

theorem sorted_entries (fenceInfo : List (Option FenceLine)) :
    (entries fenceInfo).Pairwise (StackEntry.lineIdx · < StackEntry.lineIdx ·) :=
  sorted_entriesFrom 0 fenceInfo

theorem entry_ext (he : e ∈ entries fenceInfo) (ht : t ∈ entries fenceInfo)
    (h : e.lineIdx = t.lineIdx) : e = t := by
  have hsame := mem_entries.mp he
  rw [h, mem_entries.mp ht] at hsame
  cases e
  cases t
  cases hsame
  cases h
  rfl

theorem pairFrom_eq (fenceInfo infos : List (Option FenceLine)) (i : Nat) (s : State StackEntry) :
    pairFrom fenceInfo infos i s.stack (s.pairs.map (toPair fenceInfo)) =
      (run closesTop s (entriesFrom i infos)).pairs.map (toPair fenceInfo) := by
  induction infos generalizing i s with
  | nil => rfl
  | cons info infos ih =>
    cases info with
    | none => exact ih (i + 1) s
    | some fl =>
      have hnext := ih (i + 1) (StackPairing.step closesTop s ⟨i, fl⟩)
      change _ = (run closesTop (StackPairing.step closesTop s ⟨i, fl⟩)
        (entriesFrom (i + 1) infos)).pairs.map _
      rw [← hnext]
      obtain ⟨stack, pairs⟩ := s
      cases hinfo : fl.hasInfo with
      | true =>
        cases stack with
        | nil => simp [pairFrom, StackPairing.step, hinfo]
        | cons top below => simp [pairFrom, StackPairing.step, closesTop, hinfo]
      | false =>
        cases stack with
        | nil => simp [pairFrom, StackPairing.step, hinfo]
        | cons top below =>
          by_cases hclose : top.fence.char = fl.char ∧ top.fence.len ≤ fl.len
          · simp [pairFrom, StackPairing.step, closesTop, hinfo, hclose, toPair]
          · simp [pairFrom, StackPairing.step, closesTop, hinfo, hclose]

theorem pairFences_eq (fenceInfo : List (Option FenceLine)) :
    pairFences fenceInfo = (entryPairs fenceInfo).map (toPair fenceInfo) :=
  pairFrom_eq fenceInfo fenceInfo 0 ⟨[], []⟩

theorem innerMax_le {openerIdx closerIdx n : Nat} : innerMax fenceInfo openerIdx closerIdx ≤ n ↔
    ∀ e ∈ entries fenceInfo, openerIdx < e.lineIdx → e.lineIdx < closerIdx → e.fence.len ≤ n := by
  have hmem (len : Nat) : len ∈ ((fenceInfo.take closerIdx).drop (openerIdx + 1)).filterMap
      (fun fi => fi.map FenceLine.len) ↔ ∃ e ∈ entries fenceInfo, openerIdx < e.lineIdx ∧
        e.lineIdx < closerIdx ∧ e.fence.len = len := by
    rw [mem_filterMap]
    constructor
    · rintro ⟨fi, hfi, hlen⟩
      obtain ⟨j, hget⟩ := mem_iff_getElem?.mp hfi
      rw [getElem?_drop, getElem?_take] at hget
      split at hget
      · rename_i hlt
        obtain ⟨f, rfl, rfl⟩ := Option.map_eq_some_iff.mp hlen
        have hafter : openerIdx < openerIdx + 1 + j := by omega
        exact ⟨⟨openerIdx + 1 + j, f⟩, mem_entries.mpr hget, hafter, hlt, rfl⟩
      · cases hget
    · rintro ⟨e, he, hafter, hbefore, rfl⟩
      refine ⟨some e.fence, mem_iff_getElem?.mpr ⟨e.lineIdx - (openerIdx + 1), ?_⟩, rfl⟩
      have hidx : openerIdx + 1 + (e.lineIdx - (openerIdx + 1)) = e.lineIdx := by omega
      rw [getElem?_drop, getElem?_take, hidx, if_pos hbefore]
      exact mem_entries.mp he
  unfold innerMax
  generalize ((fenceInfo.take closerIdx).drop (openerIdx + 1)).filterMap
    (fun fi => fi.map FenceLine.len) = lens at hmem ⊢
  have hall : lens.max?.getD 0 ≤ n ↔ ∀ len ∈ lens, len ≤ n := by
    cases hmax : lens.max? with
    | none =>
      rw [max?_eq_none_iff] at hmax
      simp [hmax]
    | some len => exact max?_le_iff hmax
  rw [hall]
  constructor
  · intro h e he hafter hbefore
    exact h e.fence.len ((hmem _).mpr ⟨e, he, hafter, hbefore, rfl⟩)
  · intro h len hlen
    obtain ⟨e, he, hafter, hbefore, rfl⟩ := (hmem len).mp hlen
    exact h e he hafter hbefore

end

section

variable {fenceInfo : List (Option FenceLine)} {e t : StackEntry} {p q : StackEntry × StackEntry}

theorem mem_of_entryPair (hp : p ∈ entryPairs fenceInfo) :
    p.1 ∈ entries fenceInfo ∧ p.2 ∈ entries fenceInfo := mem_of_pair hp

theorem entryPair_unique (hp : p ∈ entryPairs fenceInfo) (hq : q ∈ entryPairs fenceInfo)
    (hep : e = p.1 ∨ e = p.2) (heq : e = q.1 ∨ e = q.2) : p = q :=
  pair_unique (sorted_entries fenceInfo) hp hq hep heq

theorem mem_of_end (hp : p ∈ entryPairs fenceInfo) (he : e = p.1 ∨ e = p.2) :
    e ∈ entries fenceInfo := by
  rcases he with rfl | rfl
  · exact (mem_of_entryPair hp).1
  · exact (mem_of_entryPair hp).2

/-- The opener is not longer than every fence inside. -/
def Lengthened (fenceInfo : List (Option FenceLine)) (p : StackEntry × StackEntry) : Prop :=
  p.1.fence.len ≤ innerMax fenceInfo p.1.lineIdx p.2.lineIdx

instance (fenceInfo : List (Option FenceLine)) (p : StackEntry × StackEntry) :
    Decidable (Lengthened fenceInfo p) := Nat.decLe _ _

/-- What a pair has in store for its two lines. -/
def rewriteOf (fenceInfo : List (Option FenceLine)) (p : StackEntry × StackEntry)
    (e : StackEntry) : Rewrite :=
  ⟨e.fence.char, innerMax fenceInfo p.1.lineIdx p.2.lineIdx + 1, e.fence.indent⟩

theorem insertRewrites_toPair (hp : p ∈ entryPairs fenceInfo) (rewrites : List (Nat × Rewrite)) :
    insertRewrites fenceInfo rewrites (toPair fenceInfo p) =
      if Lengthened fenceInfo p then
        (p.2.lineIdx, rewriteOf fenceInfo p p.2) :: (p.1.lineIdx, rewriteOf fenceInfo p p.1) ::
          rewrites
      else rewrites := by
  obtain ⟨hopener, hcloser⟩ := mem_of_entryPair hp
  simp only [insertRewrites, toPair, mem_entries.mp hopener, mem_entries.mp hcloser,
    Option.join_some]
  rfl

theorem mem_rewritesOf {i : Nat} {rewrite : Rewrite} : (i, rewrite) ∈ rewritesOf fenceInfo ↔
    ∃ p ∈ entryPairs fenceInfo, Lengthened fenceInfo p ∧
      ∃ e, (e = p.1 ∨ e = p.2) ∧ e.lineIdx = i ∧ rewrite = rewriteOf fenceInfo p e := by
  have hfold (ps : List (StackEntry × StackEntry)) (hps : ps ⊆ entryPairs fenceInfo)
      (rewrites : List (Nat × Rewrite)) :
      (i, rewrite) ∈ (ps.map (toPair fenceInfo)).foldl (insertRewrites fenceInfo) rewrites ↔
        (i, rewrite) ∈ rewrites ∨ ∃ p ∈ ps, Lengthened fenceInfo p ∧
          ∃ e, (e = p.1 ∨ e = p.2) ∧ e.lineIdx = i ∧ rewrite = rewriteOf fenceInfo p e := by
    induction ps generalizing rewrites with
    | nil => simp
    | cons p ps ih =>
      rw [map_cons, foldl_cons, ih fun q hq => hps (mem_cons_of_mem p hq),
        insertRewrites_toPair (hps mem_cons_self)]
      split
      · rename_i hlonger
        simp only [mem_cons, Prod.mk.injEq, exists_eq_or_imp, hlonger, true_and]
        grind
      · rename_i hshort
        simp only [mem_cons, exists_eq_or_imp, hshort, false_and, false_or]
  have hall := hfold (entryPairs fenceInfo) (List.Subset.refl _) []
  rw [rewritesOf, pairFences_eq, hall]
  simp

/-- The length of a marker after the rebuild. -/
def newLen (fenceInfo : List (Option FenceLine)) (e : StackEntry) : Nat :=
  match (rewritesOf fenceInfo).lookup e.lineIdx with
  | some rewrite => rewrite.newLen
  | none => e.fence.len

theorem lookup_rewritesOf {rewrite : Rewrite} (he : e ∈ entries fenceInfo)
    (h : (rewritesOf fenceInfo).lookup e.lineIdx = some rewrite) :
    ∃ p ∈ entryPairs fenceInfo, Lengthened fenceInfo p ∧ (e = p.1 ∨ e = p.2) ∧
      rewrite = rewriteOf fenceInfo p e := by
  obtain ⟨front, back, hsplit, -⟩ := lookup_eq_some_iff.mp h
  have hmem : (e.lineIdx, rewrite) ∈ rewritesOf fenceInfo := by simp [hsplit]
  obtain ⟨p, hp, hlonger, t, ht, hidx, rfl⟩ := mem_rewritesOf.mp hmem
  have hsame := entry_ext (mem_of_end hp ht) he hidx
  subst hsame
  exact ⟨p, hp, hlonger, ht, rfl⟩

theorem newLen_of_lengthened (hp : p ∈ entryPairs fenceInfo) (h : Lengthened fenceInfo p)
    (he : e = p.1 ∨ e = p.2) :
    newLen fenceInfo e = innerMax fenceInfo p.1.lineIdx p.2.lineIdx + 1 := by
  have hmem := mem_rewritesOf.mpr ⟨p, hp, h, e, he, rfl, rfl⟩
  have hentry := mem_of_end hp he
  unfold newLen
  cases hlookup : (rewritesOf fenceInfo).lookup e.lineIdx with
  | none =>
    have hnone := lookup_eq_none_iff.mp hlookup _ hmem
    simp at hnone
  | some rewrite =>
    obtain ⟨q, hq, -, heq, rfl⟩ := lookup_rewritesOf hentry hlookup
    rw [entryPair_unique hp hq he heq]
    rfl

theorem newLen_of_not (he : e ∈ entries fenceInfo)
    (h : ∀ p ∈ entryPairs fenceInfo, Lengthened fenceInfo p → ¬(e = p.1 ∨ e = p.2)) :
    newLen fenceInfo e = e.fence.len := by
  unfold newLen
  cases hlookup : (rewritesOf fenceInfo).lookup e.lineIdx with
  | none => rfl
  | some rewrite =>
    obtain ⟨p, hp, hlonger, hend, -⟩ := lookup_rewritesOf he hlookup
    exact absurd hend (h p hp hlonger)

theorem newLen_of_short (hp : p ∈ entryPairs fenceInfo) (h : ¬Lengthened fenceInfo p)
    (he : e = p.1 ∨ e = p.2) : newLen fenceInfo e = e.fence.len := by
  apply newLen_of_not (mem_of_end hp he)
  intro q hq hlonger heq
  rw [entryPair_unique hp hq he heq] at h
  exact h hlonger

theorem le_newLen (he : e ∈ entries fenceInfo) (hlong : ∀ t ∈ entries fenceInfo, 3 ≤ t.fence.len) :
    3 ≤ newLen fenceInfo e := by
  unfold newLen
  cases hlookup : (rewritesOf fenceInfo).lookup e.lineIdx with
  | none => exact hlong e he
  | some rewrite =>
    obtain ⟨p, hp, hlonger, -, rfl⟩ := lookup_rewritesOf he hlookup
    have hopener := hlong p.1 (mem_of_entryPair hp).1
    unfold Lengthened at hlonger
    dsimp only [rewriteOf]
    omega

end

def fenceInfoOf (markdown : List Char) : List (Option FenceLine) :=
  (splitInclusive markdown).map parseFenceLine

def relabel (fenceInfo : List (Option FenceLine)) (e : StackEntry) : StackEntry :=
  ⟨e.lineIdx, e.fence.withLen (newLen fenceInfo e)⟩

section

variable {markdown line : List Char} {e : StackEntry} {f : FenceLine} {i : Nat}

theorem getElem?_fenceInfo (markdown : List Char) (i : Nat) :
    (fenceInfoOf markdown)[i]? = ((splitInclusive markdown)[i]?).map parseFenceLine :=
  getElem?_map

theorem long_of_entry : ∀ e ∈ entries (fenceInfoOf markdown), 3 ≤ e.fence.len := by
  intro e he
  have hget := mem_entries.mp he
  rw [getElem?_fenceInfo] at hget
  obtain ⟨line, -, hparse⟩ := Option.map_eq_some_iff.mp hget
  obtain ⟨_, -, hfits⟩ := parseFenceLine_marker.mp hparse
  exact hfits.len

theorem rebuildLine_none (rewrites : List (Nat × Rewrite)) (h : parseFenceLine line = none) :
    rebuildLine rewrites i line = line := by
  unfold rebuildLine
  rw [h]
  cases rewrites.lookup i with
  | none => rfl
  | some rewrite => rfl

theorem rebuildLine_some {rest : List Char} {fenceInfo : List (Option FenceLine)}
    (hparse : parseFenceLine (f.marker ++ rest) = some f)
    (he : ⟨i, f⟩ ∈ entries fenceInfo) :
    rebuildLine (rewritesOf fenceInfo) i (f.marker ++ rest) =
      (f.withLen (newLen fenceInfo ⟨i, f⟩)).marker ++ rest := by
  obtain ⟨rest', hsplit, hfits⟩ := parseFenceLine_marker.mp hparse
  rw [append_cancel_left_eq] at hsplit
  subst hsplit
  unfold rebuildLine newLen
  rw [hparse]
  cases hlookup : (rewritesOf fenceInfo).lookup i with
  | none => rfl
  | some rewrite =>
    obtain ⟨p, -, -, -, rfl⟩ := lookup_rewritesOf he hlookup
    have hending := prefix_iff_eq_append.mp (trimLineEnd_begins rest)
    have hlen : f.marker.length = f.indent + f.len := by simp [FenceLine.marker]
    have htrimmed := FenceLine.trimLineEnd_marker hfits.char hfits.len rest
    dsimp only
    rw [htrimmed, drop_left' hlen, length_append, ← drop_drop, drop_left,
      hending]
    simp [FenceLine.marker, FenceLine.withLen, rewriteOf]

theorem rebuildLine_spec (h : (splitInclusive markdown)[i]? = some line) :
    SameUpToLength line (rebuildLine (rewritesOf (fenceInfoOf markdown)) i line) ∧
      parseFenceLine (rebuildLine (rewritesOf (fenceInfoOf markdown)) i line) =
        (parseFenceLine line).map fun f => f.withLen (newLen (fenceInfoOf markdown) ⟨i, f⟩) := by
  cases hparse : parseFenceLine line with
  | none =>
    rw [rebuildLine_none _ hparse, hparse]
    exact ⟨.inl rfl, rfl⟩
  | some f =>
    have he : (⟨i, f⟩ : StackEntry) ∈ entries (fenceInfoOf markdown) := by
      rw [mem_entries, getElem?_fenceInfo, h, Option.map_some, hparse]
    obtain ⟨rest, rfl, hfits⟩ := parseFenceLine_marker.mp hparse
    have hnew : parseFenceLine ((f.withLen (newLen (fenceInfoOf markdown) ⟨i, f⟩)).marker ++
        rest) = some (f.withLen (newLen (fenceInfoOf markdown) ⟨i, f⟩)) :=
      parseFenceLine_marker.mpr ⟨rest, rfl, hfits.withLen (le_newLen he long_of_entry)⟩
    rw [rebuildLine_some hparse he]
    exact ⟨.inr ⟨f, _, rest, hparse, hnew, rfl, rfl⟩, hnew⟩

theorem normalize_eq (markdown : List Char) : normalizeNestedFences markdown =
    ((splitInclusive markdown).mapIdx
      (rebuildLine (rewritesOf (fenceInfoOf markdown)))).flatten := by
  unfold normalizeNestedFences
  dsimp only
  split
  · rename_i hnone
    have hsame : (splitInclusive markdown).mapIdx (rebuildLine []) = splitInclusive markdown := by
      apply ext_getElem?
      intro i
      rw [getElem?_mapIdx]
      cases (splitInclusive markdown)[i]? with
      | none => rfl
      | some line => rfl
    rw [fenceInfoOf, hnone, hsame, splitInclusive_flatten]
  · rfl

theorem lines_normalize (markdown : List Char) :
    splitInclusive (normalizeNestedFences markdown) = (splitInclusive markdown).mapIdx
      (rebuildLine (rewritesOf (fenceInfoOf markdown))) := by
  rw [normalize_eq]
  exact splitInclusive_mapIdx fun i line h => (rebuildLine_spec h).1

theorem getElem?_fenceInfo_normalize (markdown : List Char) (i : Nat) :
    (fenceInfoOf (normalizeNestedFences markdown))[i]? =
      ((fenceInfoOf markdown)[i]?).map fun info => info.map fun f =>
        f.withLen (newLen (fenceInfoOf markdown) ⟨i, f⟩) := by
  rw [getElem?_fenceInfo, lines_normalize, getElem?_mapIdx, getElem?_fenceInfo]
  cases hline : (splitInclusive markdown)[i]? with
  | none => rfl
  | some line => exact congrArg some (rebuildLine_spec hline).2

end

end DbClinic.Cli
