import Mathlib.Data.List.Sort
import Mathlib.Order.Basic

/-!
A greedy selection of positions in rounds, the positions of a rank in the round of that rank.
A position is taken if it fits beside those that are taken already. What fits is closed
under leaving out positions, so nothing that was left out could have been taken beside what
was taken from its own rank and the ranks before it.
-/

namespace DbClinic.GreedySelection

open List

variable (fits : List Nat → Bool) (rank : Nat → Nat)

def consider (round : Nat) (selected : List Nat) (index : Nat) : List Nat :=
  if index ∈ selected ∨ rank index ≠ round then selected
  else if fits (selected ++ [index]) then selected.orderedInsert (· ≤ ·) index
  else selected

def select (rounds count : Nat) : List Nat :=
  (List.range rounds).foldl
    (fun selected round => (List.range count).foldl (consider fits rank round) selected) []

/-- The rounds one after the other, each with every position. -/
def agenda (rounds count : Nat) : List (Nat × Nat) :=
  (List.range rounds).flatMap fun round => (List.range count).map fun index => (round, index)

theorem select_eq (rounds count : Nat) :
    select fits rank rounds count =
      (agenda rounds count).foldl (fun selected e => consider fits rank e.1 selected e.2) [] := by
  unfold select agenda
  simp only [foldl_flatMap, foldl_map]

theorem agenda_rounds (rounds count : Nat) :
    (agenda rounds count).Pairwise fun a b => a.1 ≤ b.1 := by
  unfold agenda
  rw [pairwise_flatMap]
  constructor
  · intro round _
    rw [pairwise_map]
    exact pairwise_of_forall fun _ _ => Nat.le_refl round
  · apply pairwise_lt_range.imp
    intro a b hlt x hx y hy
    obtain ⟨i, -, rfl⟩ := mem_map.mp hx
    obtain ⟨j, -, rfl⟩ := mem_map.mp hy
    exact Nat.le_of_lt hlt

variable {e : Nat × Nat} {done : List (Nat × Nat)} {selected : List Nat} {rounds count : Nat}

theorem mem_agenda :
    e ∈ agenda rounds count ↔ e.1 < rounds ∧ e.2 < count := by
  obtain ⟨round, index⟩ := e
  simp [agenda]

/-- What is taken fits, and does so without any of its positions. -/
def Closed : Prop := ∀ xs ys : List Nat, xs.Subperm ys → fits ys = true → fits xs = true

/-- The positions taken so far, and those looked at in vain. -/
structure Chosen (done : List (Nat × Nat)) (selected : List Nat) : Prop where
  sorted : selected.Pairwise (· ≤ ·)
  nodup : selected.Nodup
  looked : ∀ index ∈ selected, (rank index, index) ∈ done
  within : selected ≠ [] → fits selected = true
  rejected : ∀ e ∈ done, rank e.2 = e.1 → e.2 ∉ selected →
    fits (selected.filter (fun index => rank index ≤ rank e.2) ++ [e.2]) = false

variable {fits rank}

theorem Chosen.skip (h : Chosen fits rank done selected) (hskip : e.2 ∈ selected ∨ rank e.2 ≠ e.1) :
    Chosen fits rank (done ++ [e]) selected where
  sorted := h.sorted
  nodup := h.nodup
  looked index hindex := mem_append_left _ (h.looked index hindex)
  within := h.within
  rejected d hd hrank hnot := by
    rcases mem_append.mp hd with hd | hd
    · exact h.rejected d hd hrank hnot
    · obtain rfl := mem_singleton.mp hd
      exact absurd hskip (by simp [hnot, hrank])

theorem Chosen.take (hclosed : Closed fits) (h : Chosen fits rank done selected)
    (hnew : e.2 ∉ selected) (hrank : rank e.2 = e.1) (hfits : fits (selected ++ [e.2]) = true) :
    Chosen fits rank (done ++ [e]) (selected.orderedInsert (· ≤ ·) e.2) where
  sorted := h.sorted.orderedInsert e.2 selected
  nodup := (perm_orderedInsert (· ≤ ·) e.2 selected).nodup_iff.mpr
    (nodup_cons.mpr ⟨hnew, h.nodup⟩)
  looked index hindex := by
    rcases (mem_orderedInsert _).mp hindex with rfl | hindex
    · exact mem_append_right _ (by simp [hrank])
    · exact mem_append_left _ (h.looked index hindex)
  within _ := by
    apply hclosed _ _ _ hfits
    exact ((perm_orderedInsert (· ≤ ·) e.2 selected).trans
      (perm_append_singleton e.2 selected).symm).subperm
  rejected d hd hd_rank hnot := by
    have hsublist := sublist_orderedInsert (r := (· ≤ ·)) e.2 selected
    have hnot' : d.2 ∉ selected := fun hmem => hnot (hsublist.subset hmem)
    rcases mem_append.mp hd with hd | hd
    · -- what was taken since then only makes it worse
      apply Bool.eq_false_iff.mpr
      intro hnow
      have hbefore := hclosed _ _ ((hsublist.filter _).append_right [d.2]).subperm hnow
      rw [h.rejected d hd hd_rank hnot'] at hbefore
      cases hbefore
    · obtain rfl := mem_singleton.mp hd
      exact absurd ((mem_orderedInsert _).mpr (.inl rfl)) hnot

theorem Chosen.leave (h : Chosen fits rank done selected) (hrounds : ∀ d ∈ done, d.1 ≤ e.1)
    (hfits : fits (selected ++ [e.2]) = false) : Chosen fits rank (done ++ [e]) selected where
  sorted := h.sorted
  nodup := h.nodup
  looked index hindex := mem_append_left _ (h.looked index hindex)
  within := h.within
  rejected d hd hrank hnot := by
    rcases mem_append.mp hd with hd | hd
    · exact h.rejected d hd hrank hnot
    · -- all that is taken so far is of its rank or of one before
      obtain rfl := mem_singleton.mp hd
      have hall : selected.filter (fun index => rank index ≤ rank d.2) = selected := by
        apply filter_eq_self.mpr
        intro index hindex
        have hround := hrounds _ (h.looked index hindex)
        simpa [hrank] using hround
      rw [hall]
      exact hfits

theorem chosen_consider (hclosed : Closed fits) (h : Chosen fits rank done selected)
    (hrounds : ∀ d ∈ done, d.1 ≤ e.1) :
    Chosen fits rank (done ++ [e]) (consider fits rank e.1 selected e.2) := by
  unfold consider
  split
  · rename_i hskip
    exact h.skip hskip
  · rename_i hlook
    push Not at hlook
    split
    · rename_i hfits
      exact h.take hclosed hlook.1 hlook.2 hfits
    · rename_i hfits
      exact h.leave hrounds (by simpa using hfits)

theorem chosen_run (hclosed : Closed fits) {rest : List (Nat × Nat)}
    (h : Chosen fits rank done selected) (hrounds : (done ++ rest).Pairwise fun a b => a.1 ≤ b.1) :
    Chosen fits rank (done ++ rest)
      (rest.foldl (fun selected e => consider fits rank e.1 selected e.2) selected) := by
  induction rest generalizing done selected with
  | nil => simpa using h
  | cons e rest ih =>
    have hbefore : ∀ d ∈ done, d.1 ≤ e.1 := fun d hd =>
      (pairwise_append.mp hrounds).2.2 d hd e mem_cons_self
    have hnext := ih (chosen_consider hclosed h hbefore) (by simpa using hrounds)
    simpa using hnext

theorem chosen_select (hclosed : Closed fits) (rounds count : Nat) :
    Chosen fits rank (agenda rounds count) (select fits rank rounds count) := by
  have hstart : Chosen fits rank [] [] := by
    constructor <;> simp
  rw [select_eq]
  exact chosen_run hclosed hstart (agenda_rounds rounds count)

theorem select_sublist (hclosed : Closed fits) (rounds count : Nat) :
    (select fits rank rounds count).Sublist (List.range count) := by
  have h : Chosen fits rank _ _ := chosen_select hclosed rounds count
  apply sublist_of_subperm_of_pairwise _ h.sorted
    (pairwise_lt_range.imp Nat.le_of_lt)
  apply subperm_of_subset h.nodup
  intro index hindex
  exact mem_range.mpr (mem_agenda.mp (h.looked index hindex)).2

theorem fits_select (hclosed : Closed fits) (hne : select fits rank rounds count ≠ []) :
    fits (select fits rank rounds count) = true :=
  (chosen_select hclosed rounds count).within hne

theorem not_fits_of_left_out (hclosed : Closed fits) {index : Nat} (hcount : index < count)
    (hround : rank index < rounds) (hnot : index ∉ select fits rank rounds count) :
    fits ((select fits rank rounds count).filter (fun other => rank other ≤ rank index) ++
      [index]) = false :=
  (chosen_select hclosed rounds count).rejected (rank index, index)
    (mem_agenda.mpr ⟨hround, hcount⟩) rfl hnot

end DbClinic.GreedySelection
