import Mathlib.Data.List.Destutter
import Mathlib.Data.List.Nodup
import Mathlib.Data.List.Sort
import Mathlib.Order.Compare
import Mathlib.Order.Lattice

/-!
Sorted lists. When the elements have different keys, the order they came in does
not matter. Of neighbours that are equal only the first may stay: when the key
tells the elements apart, this is the list's set of elements in the order of the
key. A sort by a comparison is stable, so the element that comes out first is the
first of the least ones.
-/

namespace DbClinic.SortDedup

open List

variable {α β : Type} [LinearOrder β] {key : α → β}

theorem sorted_mergeSort (xs : List α) :
    (xs.mergeSort fun x y => decide (key x ≤ key y)).Pairwise fun x y => key x ≤ key y := by
  have hsorted := @pairwise_mergeSort α (fun x y => decide (key x ≤ key y))
    (by simpa using fun x y z => le_trans) (by simpa using fun x y => le_total _ _) xs
  exact hsorted.imp (by simp)

variable {xs : List α}

theorem mergeSort_eq_self (h : xs.Pairwise fun x y => key x ≤ key y) :
    (xs.mergeSort fun x y => decide (key x ≤ key y)) = xs :=
  mergeSort_of_pairwise (h.imp fun hle => decide_eq_true hle)

theorem mergeSort_eq_of_perm {ys : List α} (hperm : xs.Perm ys) (hkeys : (xs.map key).Nodup) :
    (xs.mergeSort fun x y => decide (key x ≤ key y)) =
      ys.mergeSort fun x y => decide (key x ≤ key y) := by
  have hall : (xs.mergeSort fun x y => decide (key x ≤ key y)).Perm
      (ys.mergeSort fun x y => decide (key x ≤ key y)) :=
    (mergeSort_perm _ _).trans (hperm.trans (mergeSort_perm _ _).symm)
  apply List.Perm.eq_of_pairwise _ (sorted_mergeSort xs) (sorted_mergeSort ys) hall
  intro x y hx hy hxy hyx
  have hx : x ∈ xs := mem_mergeSort.mp hx
  have hy : y ∈ xs := hperm.mem_iff.mpr (mem_mergeSort.mp hy)
  exact inj_on_of_nodup_map hkeys hx hy (le_antisymm hxy hyx)

variable [DecidableEq α]

def sortDedup (key : α → β) (xs : List α) : List α :=
  (xs.mergeSort fun x y => decide (key x ≤ key y)).destutter (· ≠ ·)

theorem sortDedup_eq_dedup (hkey : Function.Injective key) (xs : List α) :
    sortDedup key xs = (xs.mergeSort fun x y => decide (key x ≤ key y)).dedup := by
  have hanti : Std.Antisymm fun x y => key x ≤ key y :=
    ⟨fun x y hxy hyx => hkey (le_antisymm hxy hyx)⟩
  exact (sorted_mergeSort xs).destutter_eq_dedup

theorem mem_sortDedup (hkey : Function.Injective key) {x : α} :
    x ∈ sortDedup key xs ↔ x ∈ xs := by
  rw [sortDedup_eq_dedup hkey, mem_dedup, mem_mergeSort]

theorem nodup_sortDedup (hkey : Function.Injective key) (xs : List α) :
    (sortDedup key xs).Nodup := by
  rw [sortDedup_eq_dedup hkey]
  exact nodup_dedup _

end DbClinic.SortDedup

namespace DbClinic.SortBy

open List

variable {α : Type}

section Order

variable (cmp : α → α → Ordering)

def sortBy (xs : List α) : List α := xs.mergeSort fun x y => (cmp x y).isLE

variable {xs : List α} {x : α}

@[simp] theorem mem_sortBy : x ∈ sortBy cmp xs ↔ x ∈ xs :=
  mem_mergeSort

/-- Nothing comes before the element, and what equals it stands behind it. -/
def Foremost (xs : List α) (x : α) : Prop :=
  ∃ before after, xs = before ++ x :: after ∧ (∀ y ∈ before, cmp y x = .gt) ∧
    ∀ y ∈ after, cmp x y ≠ .gt

theorem foremost_nil (x : α) : ¬Foremost cmp [] x := by
  rintro ⟨before, after, hnil, -⟩
  simp at hnil

variable {cmp}

theorem Foremost.mem (h : Foremost cmp xs x) : x ∈ xs := by
  obtain ⟨before, after, rfl, -⟩ := h
  simp

theorem foremost_cons {y : α} :
    Foremost cmp (x :: xs) y ↔
      (y = x ∧ ∀ z ∈ xs, cmp x z ≠ .gt) ∨ (Foremost cmp xs y ∧ cmp x y = .gt) := by
  constructor
  · rintro ⟨before, after, hsplit, hbefore, hafter⟩
    cases before with
    | nil =>
      cases hsplit
      exact .inl ⟨rfl, hafter⟩
    | cons z before =>
      cases hsplit
      exact .inr ⟨⟨before, after, rfl, fun w hw => hbefore w (mem_cons_of_mem _ hw), hafter⟩,
        hbefore _ mem_cons_self⟩
  · rintro (⟨rfl, hafter⟩ | ⟨⟨before, after, rfl, hbefore, hafter⟩, hgt⟩)
    · exact ⟨[], xs, rfl, by simp, hafter⟩
    · refine ⟨x :: before, after, rfl, ?_, hafter⟩
      intro w hw
      rcases mem_cons.mp hw with rfl | hw
      · exact hgt
      · exact hbefore w hw

end Order

variable {cmp : α → α → Ordering} [Std.TransCmp cmp]

theorem isLE_trans (x y z : α) (hxy : (cmp x y).isLE = true) (hyz : (cmp y z).isLE = true) :
    (cmp x z).isLE = true :=
  Std.TransCmp.isLE_trans hxy hyz

theorem isLE_total (x y : α) : ((cmp x y).isLE || (cmp y x).isLE) = true := by
  have hswap : cmp y x = (cmp x y).swap := Std.OrientedCmp.eq_swap
  rw [hswap]
  cases cmp x y <;> rfl

variable (cmp) in
theorem pairwise_sortBy (xs : List α) : (sortBy cmp xs).Pairwise fun x y => (cmp x y).isLE = true :=
  pairwise_mergeSort isLE_trans isLE_total xs

variable {xs : List α} {x y : α}

theorem isLE_of_head? (h : (sortBy cmp xs).head? = some x) (hy : y ∈ xs) :
    (cmp x y).isLE = true := by
  obtain ⟨rest, hrest⟩ := head?_eq_some_iff.mp h
  have hsorted := pairwise_sortBy cmp xs
  have hmem : y ∈ x :: rest := by
    rw [← hrest]
    exact (mem_sortBy cmp).mpr hy
  rw [hrest, pairwise_cons] at hsorted
  rcases mem_cons.mp hmem with rfl | hmem
  · have hself : cmp y y = .eq := Std.ReflCmp.compare_self
    rw [hself]
    rfl
  · exact hsorted.1 y hmem

theorem head?_sortBy_cons (x : α) (xs : List α) :
    (sortBy cmp (x :: xs)).head? =
      match (sortBy cmp xs).head? with
      | none => some x
      | some y => if cmp x y = .gt then some y else some x := by
  obtain ⟨front, back, hcons, htail, hfront⟩ :=
    @List.mergeSort_cons α (fun x y => (cmp x y).isLE) isLE_trans isLE_total x xs
  have hsorted := pairwise_sortBy cmp (x :: xs)
  unfold sortBy at hsorted ⊢
  rw [hcons] at hsorted ⊢
  rw [htail]
  cases front with
  | nil =>
    cases back with
    | nil => rfl
    | cons y back =>
      rw [nil_append, pairwise_cons] at hsorted
      have hne : cmp x y ≠ .gt := Ordering.isLE_iff_ne_gt.mp (hsorted.1 y mem_cons_self)
      simp [hne]
  | cons y front =>
    have hgt : cmp x y = .gt := by
      have hnot := hfront y mem_cons_self
      cases hcmp : cmp x y <;> simp [hcmp] at hnot ⊢
    simp [hgt]

theorem ne_gt_iff_of_foremost (hfirst : Foremost cmp xs y) (hhead : (sortBy cmp xs).head? = some y) :
    cmp x y ≠ .gt ↔ ∀ z ∈ xs, cmp x z ≠ .gt := by
  constructor
  · intro hxy z hz
    apply Ordering.isLE_iff_ne_gt.mp
    exact isLE_trans x y z (Ordering.isLE_iff_ne_gt.mpr hxy) (isLE_of_head? hhead hz)
  · intro h
    exact h y hfirst.mem

theorem head?_sortBy_iff :
    (sortBy cmp xs).head? = some x ↔ Foremost cmp xs x := by
  induction xs generalizing x with
  | nil => simp [sortBy, foremost_nil]
  | cons y xs ih =>
    rw [head?_sortBy_cons, foremost_cons]
    cases hhead : (sortBy cmp xs).head? with
    | none =>
      have hnil : xs = [] := by
        apply eq_nil_iff_forall_not_mem.mpr
        intro z hz
        rw [head?_eq_none_iff] at hhead
        have hmem := (mem_sortBy cmp).mpr hz
        rw [hhead] at hmem
        cases hmem
      subst hnil
      simp [foremost_nil, eq_comm]
    | some z =>
      have hfirst : Foremost cmp xs z := ih.mp hhead
      have hunique : ∀ w, Foremost cmp xs w ↔ w = z := by
        intro w
        rw [← ih, hhead, Option.some.injEq, eq_comm]
      dsimp only
      rw [hunique, ← ne_gt_iff_of_foremost hfirst hhead]
      by_cases hgt : cmp y z = .gt
      · rw [if_pos hgt, Option.some.injEq]
        constructor
        · rintro rfl
          exact .inr ⟨rfl, hgt⟩
        · rintro (⟨-, hne⟩ | ⟨rfl, -⟩)
          · exact absurd hgt hne
          · rfl
      · rw [if_neg hgt, Option.some.injEq]
        constructor
        · rintro rfl
          exact .inl ⟨rfl, hgt⟩
        · rintro (⟨rfl, -⟩ | ⟨rfl, hgt'⟩)
          · rfl
          · exact absurd hgt' hgt

end DbClinic.SortBy
