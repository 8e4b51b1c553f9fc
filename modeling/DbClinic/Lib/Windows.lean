import Mathlib.Data.List.Range
import Mathlib.Data.List.Sort
import Mathlib.Data.List.Perm.Subperm

/-!
Windows around chosen positions of a sequence, each cut off at both ends. One after
the other they give every position near a chosen one; they give it once, and in
order, exactly when no two of them overlap.
-/

namespace DbClinic.Windows

open List

variable {before after n : Nat} {chosen : List Nat}

/-- The positions below `n` in the window around `j`. -/
def window (before after n j : Nat) : List Nat :=
  ((List.range n).take (min (j + after + 1) n)).drop (j - before)

/-- The windows around the chosen positions, one after the other. -/
def windows (before after n : Nat) (chosen : List Nat) : List Nat :=
  chosen.flatMap (window before after n)

/-- The positions below `n` that lie in the window around a chosen one. -/
def near (before after n : Nat) (chosen : List Nat) : List Nat :=
  (List.range n).filter fun i => chosen.any fun j => j ≤ i + before ∧ i ≤ j + after

/-- No two windows overlap. -/
def Apart (before after : Nat) (chosen : List Nat) : Prop :=
  chosen.Pairwise fun i j => i + before + after < j

instance : Decidable (Apart before after chosen) :=
  inferInstanceAs (Decidable (chosen.Pairwise fun i j => i + before + after < j))

theorem window_eq (before after n j : Nat) :
    window before after n j =
      List.range' (j - before) (min (j + after + 1) n - (j - before)) := by
  simp [window, range_eq_range', drop_range']

theorem mem_window {i j : Nat} :
    i ∈ window before after n j ↔ i < n ∧ j ≤ i + before ∧ i ≤ j + after := by
  rw [window_eq, mem_range'_1]
  omega

theorem mem_windows {i : Nat} :
    i ∈ windows before after n chosen ↔ i ∈ near before after n chosen := by
  simp only [windows, near, mem_flatMap, mem_window, mem_filter, mem_range,
    any_eq_true, decide_eq_true_eq]
  constructor
  · rintro ⟨j, hj, hi, hnear⟩
    exact ⟨hi, j, hj, hnear⟩
  · rintro ⟨hi, j, hj, hnear⟩
    exact ⟨j, hj, hi, hnear⟩

theorem near_pairwise : (near before after n chosen).Pairwise (· < ·) :=
  List.Pairwise.filter _ pairwise_lt_range

theorem windows_pairwise (h : Apart before after chosen) :
    (windows before after n chosen).Pairwise (· < ·) := by
  apply pairwise_flatMap.mpr
  refine ⟨?_, ?_⟩
  · intro j _
    rw [window_eq]
    exact pairwise_lt_range'
  · apply h.imp
    intro i j hij x hx y hy
    have hxi := mem_window.mp hx
    have hyj := mem_window.mp hy
    omega

theorem windows_eq_near (h : Apart before after chosen) :
    windows before after n chosen = near before after n chosen := by
  exact (windows_pairwise h).eq_of_mem_iff near_pairwise fun _ => mem_windows

theorem near_subperm : (near before after n chosen).Subperm (windows before after n chosen) :=
  subperm_of_subset near_pairwise.nodup fun _ hi => mem_windows.mpr hi

theorem length_near_le : (near before after n chosen).length ≤
    (windows before after n chosen).length :=
  near_subperm.length_le

theorem exists_common {i j : Nat} (hij : i < j) (hj : j < n) (h : j ≤ i + before + after) :
    ∃ k, k ∈ window before after n i ∧ k ∈ window before after n j := by
  refine ⟨max i (j - before), ?_, ?_⟩
  · rw [mem_window]
    omega
  · rw [mem_window]
    omega

theorem apart_of_nodup (hsorted : chosen.Pairwise (· < ·)) (hbound : ∀ j ∈ chosen, j < n)
    (h : (windows before after n chosen).Nodup) : Apart before after chosen := by
  obtain ⟨-, hdisjoint⟩ := pairwise_flatMap.mp h
  apply (hsorted.and hdisjoint).imp_of_mem
  intro i j _ hj hboth
  by_contra hnear
  have hoverlap : j ≤ i + before + after := by omega
  obtain ⟨k, hki, hkj⟩ := exists_common hboth.1 (hbound j hj) hoverlap
  exact hboth.2 k hki k hkj rfl

theorem length_near_lt (hsorted : chosen.Pairwise (· < ·)) (hbound : ∀ j ∈ chosen, j < n)
    (h : ¬ Apart before after chosen) :
    (near before after n chosen).length < (windows before after n chosen).length := by
  by_contra hle
  have hperm := near_subperm.perm_of_length_le (Nat.le_of_not_lt hle)
  apply h
  apply apart_of_nodup hsorted hbound
  exact hperm.nodup_iff.mp near_pairwise.nodup

end DbClinic.Windows
