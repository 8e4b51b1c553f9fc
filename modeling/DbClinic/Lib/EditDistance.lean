import Mathlib.Data.List.Basic
import Mathlib.Order.Bounds.Basic

/-!
The distance of two words: the least number of letters to insert, delete and
substitute that turns the first into the second. It is computed from the first
letters of the words.
-/

namespace DbClinic.EditDistance

open List

variable {α : Type*}

/-- One edit, at any place of the word. -/
inductive Edit : List α → List α → Prop
  | insert (front : List α) (a : α) (back : List α) : Edit (front ++ back) (front ++ a :: back)
  | delete (front : List α) (a : α) (back : List α) : Edit (front ++ a :: back) (front ++ back)
  | substitute (front : List α) (a b : α) (back : List α) :
      Edit (front ++ a :: back) (front ++ b :: back)

/-- That many edits, one after the other. -/
inductive Edits : Nat → List α → List α → Prop
  | refl (xs : List α) : Edits 0 xs xs
  | step {n : Nat} {xs ys zs : List α} (h : Edits n xs ys) (hedit : Edit ys zs) :
      Edits (n + 1) xs zs

variable {n : Nat} {xs ys zs : List α}

theorem Edit.cons (h : Edit xs ys) (a : α) : Edit (a :: xs) (a :: ys) := by
  cases h with
  | insert front b back => exact .insert (a :: front) b back
  | delete front b back => exact .delete (a :: front) b back
  | substitute front b c back => exact .substitute (a :: front) b c back

theorem Edit.reverse (h : Edit xs ys) : Edit xs.reverse ys.reverse := by
  cases h with
  | insert front a back =>
    have hedit := Edit.insert back.reverse a front.reverse
    simpa using hedit
  | delete front a back =>
    have hedit := Edit.delete back.reverse a front.reverse
    simpa using hedit
  | substitute front a b back =>
    have hedit := Edit.substitute back.reverse a b front.reverse
    simpa using hedit

theorem Edits.cons (h : Edits n xs ys) (a : α) : Edits n (a :: xs) (a :: ys) := by
  induction h with
  | refl => exact .refl _
  | step _ hedit ih => exact ih.step (hedit.cons a)

theorem Edits.head (hedit : Edit xs ys) (h : Edits n ys zs) : Edits (n + 1) xs zs := by
  induction h with
  | refl => exact .step (.refl xs) hedit
  | step _ hlast ih => exact .step (ih hedit) hlast

theorem Edits.reverse (h : Edits n xs ys) : Edits n xs.reverse ys.reverse := by
  induction h with
  | refl => exact .refl _
  | step _ hedit ih => exact ih.step hedit.reverse

theorem edits_reverse_iff : Edits n xs.reverse ys.reverse ↔ Edits n xs ys := by
  refine ⟨fun h => ?_, Edits.reverse⟩
  have hback := h.reverse
  rwa [reverse_reverse, reverse_reverse] at hback

variable [DecidableEq α]

def distance : List α → List α → Nat
  | [], ys => ys.length
  | x :: xs, [] => xs.length + 1
  | x :: xs, y :: ys =>
    min (min (distance xs (y :: ys) + 1) (distance (x :: xs) ys + 1))
      (distance xs ys + if x = y then 0 else 1)

@[simp] theorem distance_nil (ys : List α) : distance [] ys = ys.length := by
  rw [distance]

@[simp] theorem distance_nil_right (xs : List α) : distance xs [] = xs.length := by
  cases xs with
  | nil => exact distance_nil []
  | cons x xs => rw [distance, length_cons]

theorem distance_cons_cons (x y : α) (xs ys : List α) :
    distance (x :: xs) (y :: ys) =
      min (min (distance xs (y :: ys) + 1) (distance (x :: xs) ys + 1))
        (distance xs ys + if x = y then 0 else 1) := by
  rw [distance]

theorem distance_self (xs : List α) : distance xs xs = 0 := by
  induction xs with
  | nil => exact distance_nil []
  | cons x xs ih =>
    rw [distance_cons_cons, ih, if_pos rfl]
    omega

theorem distance_cons_left (x : α) (xs ys : List α) :
    distance (x :: xs) ys ≤ distance xs ys + 1 := by
  cases ys with
  | nil => simp
  | cons y ys =>
    rw [distance_cons_cons]
    omega

theorem distance_cons_right (xs : List α) (y : α) (ys : List α) :
    distance xs (y :: ys) ≤ distance xs ys + 1 := by
  cases xs with
  | nil => simp
  | cons x xs =>
    rw [distance_cons_cons]
    omega

theorem distance_tail_right (xs : List α) (y : α) (ys : List α) :
    distance xs ys ≤ distance xs (y :: ys) + 1 := by
  induction xs with
  | nil =>
    simp only [distance_nil, length_cons]
    omega
  | cons x xs ih =>
    have hleft := distance_cons_left x xs ys
    rw [distance_cons_cons]
    split <;> omega

theorem distance_substitute (xs : List α) (y z : α) (ys : List α) :
    distance xs (z :: ys) ≤ distance xs (y :: ys) + 1 := by
  induction xs with
  | nil => simp
  | cons x xs ih =>
    rw [distance_cons_cons, distance_cons_cons]
    split <;> split <;> omega

theorem distance_cons_le (h : ∀ xs : List α, distance xs zs ≤ distance xs ys + 1) (a : α)
    (xs : List α) : distance xs (a :: zs) ≤ distance xs (a :: ys) + 1 := by
  induction xs with
  | nil =>
    have hnil := h []
    simp only [distance_nil, length_cons] at hnil ⊢
    omega
  | cons x xs ih =>
    have hhere := h (x :: xs)
    have hrest := h xs
    rw [distance_cons_cons, distance_cons_cons]
    omega

theorem distance_edit (h : Edit ys zs) (xs : List α) :
    distance xs zs ≤ distance xs ys + 1 := by
  have hfront (front : List α) {ys zs : List α}
      (h : ∀ xs : List α, distance xs zs ≤ distance xs ys + 1) :
      ∀ xs, distance xs (front ++ zs) ≤ distance xs (front ++ ys) + 1 := by
    induction front with
    | nil => exact h
    | cons a front ih => exact distance_cons_le ih a
  cases h with
  | insert front a back => exact hfront front (fun xs => distance_cons_right xs a back) xs
  | delete front a back => exact hfront front (fun xs => distance_tail_right xs a back) xs
  | substitute front a b back => exact hfront front (fun xs => distance_substitute xs a b back) xs

theorem distance_le (h : Edits n xs ys) : distance xs ys ≤ n := by
  induction h with
  | refl xs => exact Nat.le_of_eq (distance_self xs)
  | step _ hedit ih => exact Nat.le_trans (distance_edit hedit _) (Nat.succ_le_succ ih)

theorem edits_distance (xs ys : List α) : Edits (distance xs ys) xs ys := by
  induction xs, ys using distance.induct with
  | case1 ys =>
    rw [distance_nil]
    induction ys with
    | nil => exact .refl []
    | cons y ys ih => exact ih.step (.insert [] y ys)
  | case2 x xs =>
    rw [distance_nil_right]
    induction xs generalizing x with
    | nil => exact .step (.refl [x]) (.delete [] x [])
    | cons next xs ih => exact .head (.delete [] x (next :: xs)) (ih next)
  | case3 x xs y ys hdelete hinsert hboth =>
    rw [distance_cons_cons]
    rcases Nat.le_total (min (distance xs (y :: ys) + 1) (distance (x :: xs) ys + 1))
      (distance xs ys + if x = y then 0 else 1) with hle | hle
    · rw [Nat.min_eq_left hle]
      rcases Nat.le_total (distance xs (y :: ys) + 1) (distance (x :: xs) ys + 1) with h | h
      · rw [Nat.min_eq_left h]
        exact .head (.delete [] x xs) hdelete
      · rw [Nat.min_eq_right h]
        exact hinsert.step (.insert [] y ys)
    · rw [Nat.min_eq_right hle]
      split
      · rename_i hxy
        subst hxy
        exact hboth.cons x
      · exact (hboth.cons x).step (.substitute [] x y ys)

theorem isLeast_distance (xs ys : List α) : IsLeast {n | Edits n xs ys} (distance xs ys) :=
  ⟨edits_distance xs ys, fun _ h => distance_le h⟩

theorem distance_reverse (xs ys : List α) :
    distance xs.reverse ys.reverse = distance xs ys := by
  apply Nat.le_antisymm
  · exact distance_le (edits_distance xs ys).reverse
  · exact distance_le (edits_reverse_iff.mp (edits_distance xs.reverse ys.reverse))

/-- The distances of a word from the beginnings of another. Both words are given
by their last letters; the beginnings start with the one that is passed. -/
def row (xs : List α) : (front : List α) → List α → List Nat
  | front, [] => [distance xs front]
  | front, y :: ys => distance xs front :: row xs (y :: front) ys

theorem row_eq_cons (xs front ys : List α) :
    row xs front ys = distance xs front :: (row xs front ys).tail := by
  cases ys <;> rfl

theorem row_nil (front ys : List α) :
    row [] front ys = List.range' front.length (ys.length + 1) := by
  induction ys generalizing front with
  | nil => simp [row]
  | cons y ys ih =>
    rw [row, ih, distance_nil, length_cons, length_cons,
      @List.range'_succ front.length]

theorem getD_row (xs front ys : List α) :
    (row xs front ys).getD ys.length 0 = distance xs (ys.reverse ++ front) := by
  induction ys generalizing front with
  | nil => rfl
  | cons y ys ih =>
    rw [row, length_cons, getD_cons_succ, ih, reverse_cons, append_assoc,
      singleton_append]

end DbClinic.EditDistance
