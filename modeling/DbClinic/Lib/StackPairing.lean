import Mathlib.Data.List.Induction
import Mathlib.Data.List.Nodup
import Mathlib.Data.List.Pairwise
import Mathlib.Order.Lattice

/-!
Items are paired with a stack: an item closes the one on top of the stack, or is
put on it. Items that are not paired stay on the stack; between them, and
between the two items of a pair, every item is paired.
-/

namespace DbClinic.StackPairing

open List

/-- The items that are not closed yet, the last one first, and the pairs found. -/
structure State (α : Type*) where
  stack : List α
  pairs : List (α × α)
  deriving DecidableEq

variable {α β : Type*}

def step (closes : α → α → Bool) (s : State α) (x : α) : State α :=
  match s.stack with
  | [] => ⟨[x], s.pairs⟩
  | top :: below =>
    if closes top x then ⟨below, s.pairs ++ [(top, x)]⟩ else ⟨x :: top :: below, s.pairs⟩

def run (closes : α → α → Bool) (s : State α) (xs : List α) : State α := xs.foldl (step closes) s

def pairing (closes : α → α → Bool) (xs : List α) : State α := run closes ⟨[], []⟩ xs

def ends (pairs : List (α × α)) : List α := pairs.flatMap fun p => [p.1, p.2]

variable {x : α} {pairs : List (α × α)} {closes : α → α → Bool} {closes' : β → β → Bool}
variable {f : α → β}

theorem mem_ends :
    x ∈ ends pairs ↔ ∃ p ∈ pairs, x = p.1 ∨ x = p.2 := by
  simp [ends]

theorem ends_append (ps qs : List (α × α)) : ends (ps ++ qs) = ends ps ++ ends qs :=
  flatMap_append

theorem eq_of_mem_ends (h : (ends pairs).Nodup) {p q : α × α} (hp : p ∈ pairs) (hq : q ∈ pairs)
    (hxp : x = p.1 ∨ x = p.2) (hxq : x = q.1 ∨ x = q.2) : p = q := by
  by_contra hne
  have hdisjoint := (nodup_flatMap.mp h).2
  have hsymm : Std.Symm (Function.onFun List.Disjoint fun p : α × α => [p.1, p.2]) :=
    ⟨fun _ _ hpq _ hx hx' => hpq hx' hx⟩
  have hapart := hdisjoint.forall hp hq hne
  exact hapart (by simpa using hxp) (by simpa using hxq)

section

variable {closes : α → α → Bool} {s : State α} {x top : α} {xs front back : List α}

theorem run_append (s : State α) (xs ys : List α) :
    run closes s (xs ++ ys) = run closes (run closes s xs) ys := foldl_append

theorem pairing_snoc (xs : List α) (x : α) :
    pairing closes (xs ++ [x]) = step closes (pairing closes xs) x := run_append _ xs [x]

theorem step_cases (closes : α → α → Bool) (s : State α) (x : α) :
    (∃ top below, s.stack = top :: below ∧ closes top x = true ∧
      step closes s x = ⟨below, s.pairs ++ [(top, x)]⟩) ∨
    (∀ top, s.stack.head? = some top → closes top x = false) ∧
      step closes s x = ⟨x :: s.stack, s.pairs⟩ := by
  cases hstack : s.stack with
  | nil => exact .inr ⟨by simp, by simp [step, hstack]⟩
  | cons top below =>
    cases hcloses : closes top x with
    | true => exact .inl ⟨top, below, rfl, hcloses, by simp [step, hstack, hcloses]⟩
    | false => exact .inr ⟨by simpa using hcloses, by simp [step, hstack, hcloses]⟩

theorem step_of_closes (hstack : s.stack.head? = some top) (h : closes top x = true) :
    step closes s x = ⟨s.stack.tail, s.pairs ++ [(top, x)]⟩ := by
  cases hcons : s.stack with
  | nil =>
    rw [hcons] at hstack
    cases hstack
  | cons top' below =>
    rw [hcons] at hstack
    cases hstack
    simp [step, hcons, h]

theorem step_of_not_closes (hstack : s.stack.head? = some top) (h : closes top x = false) :
    step closes s x = ⟨x :: s.stack, s.pairs⟩ := by
  rcases step_cases closes s x with ⟨top', below, hcons, hcloses, -⟩ | ⟨-, hstep⟩
  · rw [hcons] at hstack
    cases hstack
    rw [h] at hcloses
    cases hcloses
  · exact hstep

variable {p : α × α}

theorem mem_pairs_step (h : p ∈ (step closes s x).pairs) :
    p ∈ s.pairs ∨ p.2 = x := by
  rcases step_cases closes s x with ⟨top, below, -, -, hstep⟩ | ⟨-, hstep⟩
  · rw [hstep] at h
    rcases mem_append.mp h with h | h
    · exact .inl h
    · exact .inr (congrArg Prod.snd (mem_singleton.mp h))
  · rw [hstep] at h
    exact .inl h

theorem mem_pairs_run (h : p ∈ (run closes s xs).pairs) : p ∈ s.pairs ∨ p.2 ∈ xs := by
  induction xs generalizing s with
  | nil => exact .inl h
  | cons x xs ih =>
    rcases ih (s := step closes s x) h with h | h
    · rcases mem_pairs_step h with h | rfl
      · exact .inl h
      · exact .inr mem_cons_self
    · exact .inr (mem_cons_of_mem x h)

theorem closes_of_pair_step (h : p ∈ (step closes s x).pairs) :
    p ∈ s.pairs ∨ closes p.1 p.2 = true := by
  rcases step_cases closes s x with ⟨top, below, -, hcloses, hstep⟩ | ⟨-, hstep⟩
  · rw [hstep] at h
    rcases mem_append.mp h with h | h
    · exact .inl h
    · rw [mem_singleton.mp h]
      exact .inr hcloses
  · rw [hstep] at h
    exact .inl h

theorem closes_of_pair (h : p ∈ (pairing closes xs).pairs) :
    closes p.1 p.2 = true := by
  induction xs using List.reverseRecOn with
  | nil => cases h
  | append_singleton xs x ih =>
    rw [pairing_snoc] at h
    rcases closes_of_pair_step h with h | h
    · exact ih h
    · exact h

theorem pairs_subset_step (closes : α → α → Bool) (s : State α) (x : α) :
    s.pairs ⊆ (step closes s x).pairs := by
  rcases step_cases closes s x with ⟨top, below, -, -, hstep⟩ | ⟨-, hstep⟩
  · rw [hstep]
    exact subset_append_left _ _
  · rw [hstep]
    exact List.Subset.refl _

theorem pairs_subset_run (closes : α → α → Bool) (s : State α) (xs : List α) :
    s.pairs ⊆ (run closes s xs).pairs := by
  induction xs generalizing s with
  | nil => exact List.Subset.refl _
  | cons x xs ih => exact List.Subset.trans (pairs_subset_step closes s x) (ih _)

theorem pairing_perm (closes : α → α → Bool) (xs : List α) :
    (ends (pairing closes xs).pairs ++ (pairing closes xs).stack).Perm xs := by
  induction xs using List.reverseRecOn with
  | nil => exact List.Perm.nil
  | append_singleton xs x ih =>
    rw [pairing_snoc]
    rcases step_cases closes (pairing closes xs) x with
      ⟨top, below, hstack, -, hstep⟩ | ⟨-, hstep⟩
    · rw [hstack] at ih
      rw [hstep, ends_append]
      have hmove : (ends (pairing closes xs).pairs ++ [top, x] ++ below).Perm
          (ends (pairing closes xs).pairs ++ top :: below ++ [x]) := by
        simp only [append_assoc, cons_append, nil_append]
        exact ((perm_append_singleton x below).symm.cons top).append_left _
      exact hmove.trans (ih.append_right [x])
    · rw [hstep]
      have hmove : (ends (pairing closes xs).pairs ++ x :: (pairing closes xs).stack).Perm
          (ends (pairing closes xs).pairs ++ (pairing closes xs).stack ++ [x]) := by
        rw [append_assoc]
        exact (perm_append_singleton x _).symm.append_left _
      exact hmove.trans (ih.append_right [x])

end

/-- Every item is paired, and pairs do not cross. -/
inductive Balanced : List α → List (α × α) → Prop
  | nil : Balanced [] []
  | snoc {xs ys ps qs} (opener closer) : Balanced xs ps → Balanced ys qs →
      Balanced (xs ++ opener :: (ys ++ [closer])) (ps ++ (qs ++ [(opener, closer)]))

inductive Nested : List α → List α → List (α × α) → Prop
  | balanced {xs ps} : Balanced xs ps → Nested xs [] ps
  | opened {xs ys stack ps qs} (opener) : Nested xs stack ps → Balanced ys qs →
      Nested (xs ++ opener :: ys) (opener :: stack) (ps ++ qs)

section

variable {closes : α → α → Bool} {xs ys stack : List α} {ps qs : List (α × α)} {x opener : α}

theorem Nested.push (h : Nested xs stack ps) (x : α) : Nested (xs ++ [x]) (x :: stack) ps := by
  have hopened := Nested.opened x h .nil
  rwa [append_nil] at hopened

theorem Nested.close (h : Nested xs (opener :: stack) ps) (x : α) :
    Nested (xs ++ [x]) stack (ps ++ [(opener, x)]) := by
  cases h with
  | @opened xs ys _ ps qs _ hxs hys =>
    cases hxs with
    | balanced hxs =>
      have hsnoc := Nested.balanced (.snoc opener x hxs hys)
      simpa using hsnoc
    | @opened xs zs _ ps rs below hxs hzs =>
      have hsnoc := Nested.opened below hxs (.snoc opener x hzs hys)
      simpa using hsnoc

theorem pairing_nested (closes : α → α → Bool) (xs : List α) :
    Nested xs (pairing closes xs).stack (pairing closes xs).pairs := by
  induction xs using List.reverseRecOn with
  | nil => exact .balanced .nil
  | append_singleton xs x ih =>
    rw [pairing_snoc]
    rcases step_cases closes (pairing closes xs) x with
      ⟨top, below, hstack, -, hstep⟩ | ⟨-, hstep⟩
    · rw [hstep]
      rw [hstack] at ih
      exact ih.close x
    · rw [hstep]
      exact ih.push x

theorem Balanced.perm (h : Balanced xs ps) : (ends ps).Perm xs := by
  induction h with
  | nil => exact .nil
  | @snoc xs ys ps qs opener closer _ _ ihxs ihys =>
    rw [ends_append, ends_append]
    have hmove : (ends qs ++ [opener, closer]).Perm (opener :: (ys ++ [closer])) := by
      have hmiddle : (ends qs ++ opener :: [closer]).Perm (opener :: (ends qs ++ [closer])) :=
        perm_middle
      exact hmiddle.trans ((ihys.append_right _).cons _)
    exact ihxs.append hmove

variable {p : α × α}

theorem Balanced.inside (h : Balanced xs ps) (hp : p ∈ ps) :
    ∃ front ys back qs, xs = front ++ p.1 :: (ys ++ p.2 :: back) ∧ Balanced ys qs ∧ qs ⊆ ps := by
  induction h with
  | nil => cases hp
  | @snoc xs ys ps qs opener closer _ hys ihxs ihys =>
    rcases mem_append.mp hp with hp | hp
    · obtain ⟨front, zs, back, rs, rfl, hzs, hsub⟩ := ihxs hp
      exact ⟨front, zs, back ++ opener :: (ys ++ [closer]), rs, by simp, hzs,
        subset_append_of_subset_left _ hsub⟩
    · rcases mem_append.mp hp with hp | hp
      · obtain ⟨front, zs, back, rs, rfl, hzs, hsub⟩ := ihys hp
        exact ⟨xs ++ opener :: front, zs, back ++ [closer], rs, by simp, hzs,
          subset_append_of_subset_right _ (subset_append_of_subset_left _ hsub)⟩
      · rw [mem_singleton] at hp
        subst hp
        exact ⟨xs, ys, [], qs, rfl, hys,
          subset_append_of_subset_right _ (subset_append_left _ _)⟩

theorem Nested.inside (h : Nested xs stack ps) (hp : p ∈ ps) :
    ∃ front ys back qs, xs = front ++ p.1 :: (ys ++ p.2 :: back) ∧ Balanced ys qs ∧ qs ⊆ ps := by
  induction h with
  | balanced hxs => exact hxs.inside hp
  | @opened xs ys stack ps qs opener hxs hys ih =>
    rcases mem_append.mp hp with hp | hp
    · obtain ⟨front, zs, back, rs, rfl, hzs, hsub⟩ := ih hp
      exact ⟨front, zs, back ++ opener :: ys, rs, by simp, hzs,
        subset_append_of_subset_left _ hsub⟩
    · obtain ⟨front, zs, back, rs, rfl, hzs, hsub⟩ := hys.inside hp
      exact ⟨xs ++ opener :: front, zs, back, rs, by simp, hzs,
        subset_append_of_subset_right _ hsub⟩

theorem Nested.stack_subset (h : Nested xs stack ps) : stack ⊆ xs := by
  induction h with
  | balanced _ => exact nil_subset _
  | opened opener _ _ ih =>
    apply cons_subset.mpr
    exact ⟨by simp, subset_append_of_subset_left _ ih⟩

theorem Nested.top (h : Nested xs (opener :: stack) ps) :
    ∃ front ys qs, xs = front ++ opener :: ys ∧ stack ⊆ front ∧ Balanced ys qs ∧ qs ⊆ ps := by
  cases h with
  | @opened xs ys _ ps qs _ hxs hys =>
    exact ⟨xs, ys, qs, rfl, hxs.stack_subset, hys, subset_append_right _ _⟩

end

section

variable {ι : Type*} [LinearOrder ι] {key : α → ι} {closes : α → α → Bool}
variable {xs ys front back : List α} {x a b top : α}

theorem nodup_of_sorted (h : xs.Pairwise (key · < key ·)) : xs.Nodup := by
  apply h.imp
  rintro a b hlt rfl
  exact lt_irrefl _ hlt

theorem between_iff (h : (front ++ a :: (ys ++ b :: back)).Pairwise (key · < key ·))
    (hx : x ∈ front ++ a :: (ys ++ b :: back)) : x ∈ ys ↔ key a < key x ∧ key x < key b := by
  obtain ⟨-, htail, hfront⟩ := pairwise_append.mp h
  obtain ⟨ha, hrest⟩ := pairwise_cons.mp htail
  obtain ⟨-, hback, hys⟩ := pairwise_append.mp hrest
  have hb := (pairwise_cons.mp hback).1
  constructor
  · intro hmem
    exact ⟨ha x (by simp [hmem]), hys x hmem b (by simp)⟩
  · rintro ⟨hax, hxb⟩
    rcases mem_append.mp hx with hx | hx
    · exact absurd (lt_trans hax (hfront x hx a (by simp))) (lt_irrefl _)
    · rcases mem_cons.mp hx with rfl | hx
      · exact absurd hax (lt_irrefl _)
      · rcases mem_append.mp hx with hx | hx
        · exact hx
        · rcases mem_cons.mp hx with rfl | hx
          · exact absurd hxb (lt_irrefl _)
          · exact absurd (lt_trans hxb (hb x hx)) (lt_irrefl _)

variable {p : α × α}

theorem pair_lt (hsorted : xs.Pairwise (key · < key ·)) (hp : p ∈ (pairing closes xs).pairs) :
    key p.1 < key p.2 := by
  obtain ⟨front, ys, back, qs, rfl, -, -⟩ := (pairing_nested closes xs).inside hp
  obtain ⟨-, htail, -⟩ := pairwise_append.mp hsorted
  exact (pairwise_cons.mp htail).1 p.2 (by simp)

theorem mem_of_pair (hp : p ∈ (pairing closes xs).pairs) : p.1 ∈ xs ∧ p.2 ∈ xs := by
  obtain ⟨front, ys, back, qs, hxs, -, -⟩ := (pairing_nested closes xs).inside hp
  rw [hxs]
  simp

theorem pair_between (hsorted : xs.Pairwise (key · < key ·)) (hp : p ∈ (pairing closes xs).pairs)
    (hx : x ∈ xs) (hafter : key p.1 < key x) (hbefore : key x < key p.2) :
    ∃ q ∈ (pairing closes xs).pairs, (x = q.1 ∨ x = q.2) ∧ key p.1 < key q.1 ∧
      key q.2 < key p.2 := by
  obtain ⟨front, ys, back, qs, hxs, hys, hsub⟩ := (pairing_nested closes xs).inside hp
  generalize (pairing closes xs).pairs = pairs at hsub ⊢
  subst hxs
  have hmem := (between_iff hsorted hx).mpr ⟨hafter, hbefore⟩
  obtain ⟨q, hq, hend⟩ := mem_ends.mp (hys.perm.mem_iff.mpr hmem)
  have hopener : q.1 ∈ ys := hys.perm.mem_iff.mp (mem_ends.mpr ⟨q, hq, .inl rfl⟩)
  have hcloser : q.2 ∈ ys := hys.perm.mem_iff.mp (mem_ends.mpr ⟨q, hq, .inr rfl⟩)
  exact ⟨q, hsub hq, hend, ((between_iff hsorted (by simp [hopener])).mp hopener).1,
    ((between_iff hsorted (by simp [hcloser])).mp hcloser).2⟩

theorem mem_of_stack (h : x ∈ (pairing closes xs).stack) : x ∈ xs :=
  (pairing_nested closes xs).stack_subset h

theorem pair_unique (hsorted : xs.Pairwise (key · < key ·)) {q : α × α}
    (hp : p ∈ (pairing closes xs).pairs) (hq : q ∈ (pairing closes xs).pairs)
    (hxp : x = p.1 ∨ x = p.2) (hxq : x = q.1 ∨ x = q.2) : p = q := by
  have hnodup := (pairing_perm closes xs).nodup_iff.mpr (nodup_of_sorted hsorted)
  exact eq_of_mem_ends (nodup_append.mp hnodup).1 hp hq hxp hxq

end

section

variable {ι : Type*} [LinearOrder ι] {key : α → ι} {closes : α → α → Bool}
variable {front back : List α} {x z top : α}

theorem pairing_cons (closes : α → α → Bool) (front back : List α) (x : α) :
    pairing closes (front ++ x :: back) = run closes (step closes (pairing closes front) x) back :=
  run_append _ front (x :: back)

theorem pair_of_closes (hstack : (pairing closes front).stack.head? = some top)
    (h : closes top x = true) : (top, x) ∈ (pairing closes (front ++ x :: back)).pairs := by
  rw [pairing_cons, step_of_closes hstack h]
  exact pairs_subset_run _ _ _ (by simp)

variable {p : α × α}

theorem not_closer (hsorted : (front ++ x :: back).Pairwise (key · < key ·))
    (hstack : (pairing closes front).stack.head? = some top) (h : closes top x = false)
    (hp : p ∈ (pairing closes (front ++ x :: back)).pairs) : p.2 ≠ x := by
  rintro rfl
  obtain ⟨-, htail, hfront⟩ := pairwise_append.mp hsorted
  rw [pairing_cons, step_of_not_closes hstack h] at hp
  rcases mem_pairs_run hp with hp | hp
  · exact lt_irrefl _ (hfront p.2 (mem_of_pair hp).2 p.2 mem_cons_self)
  · exact lt_irrefl _ ((pairwise_cons.mp htail).1 p.2 hp)

theorem pair_of_stack (hsorted : (front ++ x :: back).Pairwise (key · < key ·))
    (htop : top ∈ (pairing closes front).stack)
    (hp : p ∈ (pairing closes (front ++ x :: back)).pairs) :
    p.2 ≠ top ∧ (p.1 = top → p.2 ∈ x :: back) := by
  obtain ⟨hfront, -, hlater⟩ := pairwise_append.mp hsorted
  have hperm := pairing_perm closes front
  have hnodup := hperm.nodup_iff.mpr (nodup_of_sorted hfront)
  have happart := (nodup_append.mp hnodup).2.2
  rw [pairing, run_append] at hp
  rcases mem_pairs_run hp with hp | hp
  · constructor
    · rintro rfl
      exact happart p.2 (mem_ends.mpr ⟨p, hp, .inr rfl⟩) p.2 htop rfl
    · rintro rfl
      exact absurd rfl (happart p.1 (mem_ends.mpr ⟨p, hp, .inl rfl⟩) p.1 htop)
  · refine ⟨?_, fun _ => hp⟩
    rintro rfl
    exact lt_irrefl _ (hlater p.2 (mem_of_stack htop) p.2 hp)

theorem pairs_subset_pairing (closes : α → α → Bool) (front back : List α) :
    (pairing closes front).pairs ⊆ (pairing closes (front ++ back)).pairs := by
  rw [pairing, pairing, run_append]
  exact pairs_subset_run _ _ _

theorem pair_above_top (hsorted : (front ++ x :: back).Pairwise (key · < key ·))
    (hstack : (pairing closes front).stack.head? = some top) (hz : z ∈ front ++ x :: back)
    (hafter : key top < key z) (hbefore : key z < key x) :
    ∃ q ∈ (pairing closes (front ++ x :: back)).pairs, (z = q.1 ∨ z = q.2) ∧ key q.2 < key x := by
  obtain ⟨below, hcons⟩ := head?_eq_some_iff.mp hstack
  obtain ⟨pre, ys, qs, hfront, -, hys, hsub⟩ := (hcons ▸ pairing_nested closes front).top
  have hall := pairs_subset_pairing closes front (x :: back)
  rw [hfront, append_assoc, cons_append] at hsorted hz
  have hmem := (between_iff hsorted hz).mpr ⟨hafter, hbefore⟩
  obtain ⟨q, hq, hend⟩ := mem_ends.mp (hys.perm.mem_iff.mpr hmem)
  have hcloser : q.2 ∈ ys := hys.perm.mem_iff.mp (mem_ends.mpr ⟨q, hq, .inr rfl⟩)
  exact ⟨q, hall (hsub hq), hend, ((between_iff hsorted (by simp [hcloser])).mp hcloser).2⟩

theorem head_of_unpaired (hsorted : (front ++ x :: back).Pairwise (key · < key ·))
    (ht : top ∈ front)
    (hfree : ∀ p ∈ (pairing closes (front ++ x :: back)).pairs, ¬(top = p.1 ∨ top = p.2))
    (habove : ∀ z ∈ front, key top < key z → ∃ p ∈ (pairing closes (front ++ x :: back)).pairs,
      (z = p.1 ∨ z = p.2) ∧ key p.2 < key x) :
    (pairing closes front).stack.head? = some top := by
  obtain ⟨hfront, htail, -⟩ := pairwise_append.mp hsorted
  have hperm := pairing_perm closes front
  have hnodup := hperm.nodup_iff.mpr (nodup_of_sorted hfront)
  have happart := (nodup_append.mp hnodup).2.2
  have hstack : top ∈ (pairing closes front).stack := by
    rcases mem_append.mp (hperm.mem_iff.mpr ht) with hmem | hmem
    · obtain ⟨p, hp, hend⟩ := mem_ends.mp hmem
      exact absurd hend (hfree p (pairs_subset_pairing _ _ _ hp))
    · exact hmem
  cases hcons : (pairing closes front).stack with
  | nil =>
    rw [hcons] at hstack
    cases hstack
  | cons first below =>
    rw [hcons] at hstack
    rcases mem_cons.mp hstack with rfl | hbelow
    · rfl
    · -- what is above is paired before the item comes in, and on the stack
      obtain ⟨pre, ys, qs, hsplit, hsub, -, -⟩ := (hcons ▸ pairing_nested closes front).top
      rw [hsplit] at hfront
      have hlt := (pairwise_append.mp hfront).2.2 top (hsub hbelow) first
        mem_cons_self
      obtain ⟨p, hp, hend, hclosed⟩ := habove first (by simp [hsplit]) hlt
      rw [pairing, run_append] at hp
      rcases mem_pairs_run hp with hp | hp
      · exact absurd rfl (happart first (mem_ends.mpr ⟨p, hp, hend⟩) first (by simp [hcons]))
      · rcases mem_cons.mp hp with heq | hp
        · exact absurd hclosed (heq ▸ lt_irrefl _)
        · exact absurd (lt_trans hclosed ((pairwise_cons.mp htail).1 p.2 hp)) (lt_irrefl _)

end

def State.map (f : α → β) (s : State α) : State β :=
  ⟨s.stack.map f, s.pairs.map fun p => (f p.1, f p.2)⟩

theorem step_map {s : State α}
    (h : ∀ top, s.stack.head? = some top → closes' (f top) (f x) = closes top x) :
    step closes' (s.map f) (f x) = (step closes s x).map f := by
  cases hstack : s.stack with
  | nil => simp [step, State.map, hstack]
  | cons top below =>
    have hsame := h top (by simp [hstack])
    cases hcloses : closes top x with
    | true => simp [step, State.map, hstack, hsame, hcloses]
    | false => simp [step, State.map, hstack, hsame, hcloses]

theorem pairing_map {xs : List α} (h : ∀ front x back top, xs = front ++ x :: back →
      (pairing closes front).stack.head? = some top → closes' (f top) (f x) = closes top x) :
    pairing closes' (xs.map f) = (pairing closes xs).map f := by
  induction xs using List.reverseRecOn with
  | nil => rfl
  | append_singleton xs x ih =>
    have hxs := ih fun front y back top hsplit => h front y (back ++ [x]) top (by simp [hsplit])
    rw [map_append, map_singleton, pairing_snoc, pairing_snoc, hxs]
    exact step_map fun top => h xs x [] top rfl

end DbClinic.StackPairing
