import Mathlib.Data.List.Basic
import Mathlib.Data.List.Nodup

/-!
The first and the last occurrences in a list, by a key that an element may lack.
An element without a key stays. Of the last occurrences, an element that is not
live goes; the last half is how a loop finds them that reads the list from the
front and takes back what it kept.
-/

namespace DbClinic.FirstOccurrences

open List

variable {α κ : Type} [DecidableEq κ] (key : α → Option κ)

/-- The first elements of their keys, other than the keys in `seen`. -/
@[grind] def firsts (seen : List κ) : List α → List α
  | [] => []
  | x :: xs =>
    match key x with
    | some k =>
      if k ∈ seen then firsts seen xs else x :: firsts (k :: seen) xs
    | none => x :: firsts seen xs

variable {key} {seen : List κ}

theorem firsts_sublist (seen : List κ) (xs : List α) :
    (firsts key seen xs).Sublist xs := by
  induction xs generalizing seen with
  | nil => exact .refl _
  | cons x xs ih =>
    simp only [firsts]
    split
    · split
      · exact .cons x (ih seen)
      · exact .cons_cons x (ih _)
    · exact .cons_cons x (ih seen)

theorem filter_firsts {p : α → Bool} (hp : ∀ x, p x = true → key x = none)
    (seen : List κ) (xs : List α) : (firsts key seen xs).filter p = xs.filter p := by
  induction xs generalizing seen with
  | nil => rfl
  | cons x xs ih =>
    cases hkey : key x with
    | none => simp [firsts, hkey, filter_cons, ih seen]
    | some k =>
      have hnot : p x = false := by
        apply Bool.eq_false_iff.mpr
        intro h
        simp [hp x h] at hkey
      by_cases hseen : k ∈ seen
      · simp [firsts, hkey, hseen, hnot, ih seen]
      · simp [firsts, hkey, hseen, hnot, ih (k :: seen)]

variable {x : α} {k : κ}

theorem seen_or_first (hkey : key x = some k) (seen : List κ) (before after : List α) :
    k ∈ seen ∨ ∃ y ∈ before ++ [x],
      y ∈ firsts key seen (before ++ x :: after) ∧ key y = some k := by
  induction before generalizing seen with
  | nil =>
    by_cases hseen : k ∈ seen
    · exact .inl hseen
    · exact .inr ⟨x, by simp, by simp [firsts, hkey, hseen], hkey⟩
  | cons b before ih =>
    cases hb : key b with
    | none =>
      rcases ih seen with hseen | ⟨y, hy, hfirst, hkeyed⟩
      · exact .inl hseen
      · exact .inr ⟨y, mem_cons_of_mem b hy, by simp [firsts, hb, hfirst],
          hkeyed⟩
    | some kb =>
      by_cases hseenb : kb ∈ seen
      · rcases ih seen with hseen | ⟨y, hy, hfirst, hkeyed⟩
        · exact .inl hseen
        · exact .inr ⟨y, mem_cons_of_mem b hy,
            by simp [firsts, hb, hseenb, hfirst], hkeyed⟩
      · rcases ih (kb :: seen) with hseen | ⟨y, hy, hfirst, hkeyed⟩
        · rcases mem_cons.mp hseen with rfl | hseen
          · exact .inr ⟨b, by simp, by simp [firsts, hb, hseenb], hb⟩
          · exact .inl hseen
        · exact .inr ⟨y, mem_cons_of_mem b hy,
            by simp [firsts, hb, hseenb, hfirst], hkeyed⟩

theorem exists_first (hkey : key x = some k) (before after : List α) :
    ∃ y ∈ before ++ [x],
      y ∈ firsts key [] (before ++ x :: after) ∧ key y = some k :=
  (seen_or_first hkey [] before after).resolve_left (not_mem_nil)

theorem not_seen_of_mem {xs : List α} (hx : x ∈ firsts key seen xs) (hkey : key x = some k) :
    k ∉ seen := by
  induction xs generalizing seen with
  | nil => simp [firsts] at hx
  | cons y xs ih =>
    simp only [firsts] at hx
    split at hx
    · split at hx
      · exact ih hx
      · rename_i ky hky hnot
        rcases mem_cons.mp hx with rfl | hx
        · obtain rfl := Option.some.inj (hky.symm.trans hkey)
          exact hnot
        · exact fun hseen => ih hx (mem_cons_of_mem ky hseen)
    · rename_i hky
      rcases mem_cons.mp hx with rfl | hx
      · simp [hky] at hkey
      · exact ih hx

theorem nodup_keys (seen : List κ) (xs : List α) :
    ((firsts key seen xs).filterMap key).Nodup := by
  induction xs generalizing seen with
  | nil => simp [firsts]
  | cons x xs ih =>
    simp only [firsts]
    split
    · rename_i k hkey
      split
      · exact ih seen
      · rw [filterMap_cons_some hkey, nodup_cons]
        refine ⟨?_, ih _⟩
        intro hk
        obtain ⟨y, hy, hkeyed⟩ := mem_filterMap.mp hk
        exact not_seen_of_mem hy hkeyed mem_cons_self
    · rename_i hkey
      rw [filterMap_cons_none hkey]
      exact ih seen

end DbClinic.FirstOccurrences

namespace DbClinic.LastOccurrences

open List

variable {α κ : Type} [DecidableEq κ] (live : α → Bool) (key : α → Option κ)

/-- The element is live and nothing behind it has its key. -/
def stays (x : α) (later : List α) : Bool :=
  live x && match key x with
    | none => true
    | some k => later.all fun y => key y != some k

@[grind] def lasts : List α → List α
  | [] => []
  | x :: xs => if stays live key x xs then x :: lasts xs else lasts xs

variable {live key}

theorem lasts_sublist (xs : List α) : (lasts live key xs).Sublist xs := by
  induction xs with
  | nil => exact .slnil
  | cons x xs ih =>
    simp only [lasts]
    split
    · exact .cons_cons x ih
    · exact .cons x ih

variable {x y : α} {xs later : List α} {k : κ} {i : Nat}

theorem live_of_mem_lasts (h : x ∈ lasts live key xs) : live x = true := by
  induction xs with
  | nil => cases h
  | cons y ys ih =>
    simp only [lasts] at h
    split at h
    · rename_i hstays
      rcases mem_cons.mp h with rfl | hrest
      · simp only [stays, Bool.and_eq_true] at hstays
        exact hstays.1
      · exact ih hrest
    · exact ih h

theorem filter_lasts {p : α → Bool} (hp : ∀ x, p x = true → live x = true ∧ key x = none)
    (xs : List α) : (lasts live key xs).filter p = xs.filter p := by
  induction xs with
  | nil => rfl
  | cons x xs ih =>
    cases hpx : p x with
    | true =>
      obtain ⟨hlive, hkey⟩ := hp x hpx
      simp [lasts, stays, hlive, hkey, hpx, ih]
    | false =>
      simp only [lasts]
      split <;> simp [hpx, ih]

theorem filter_key_lasts (hlive : ∀ x k, key x = some k → live x = true) (k : κ)
    (xs : List α) :
    (lasts live key xs).filter (key · == some k) =
      (xs.filter (key · == some k)).getLast?.toList := by
  induction xs with
  | nil => rfl
  | cons x xs ih =>
    by_cases hkey : key x = some k
    · cases hrest : xs.filter (key · == some k) with
      | nil =>
        have hall : ∀ y ∈ xs, key y ≠ some k := by simpa using hrest
        have hstays : stays live key x xs = true := by
          simpa [stays, hlive x k hkey, hkey] using hall
        rw [hrest] at ih
        simp [lasts, hstays, hkey, ih, hrest]
      | cons y ys =>
        have hy : y ∈ xs.filter (key · == some k) := by simp [hrest]
        have hgone : stays live key x xs = false := by
          simp only [stays, hkey, Bool.and_eq_false_imp]
          intro _
          simpa using ⟨y, mem_filter.mp hy |>.imp id (by simp)⟩
        rw [hrest] at ih
        simp [lasts, hgone, hkey, ih, hrest]
    · simp only [lasts]
      split <;> simp [hkey, ih]

theorem stays_of_sublist {ys : List α} (hsublist : ys.Sublist xs) (h : stays live key x xs = true) :
    stays live key x ys = true := by
  simp only [stays, Bool.and_eq_true] at h ⊢
  refine ⟨h.1, ?_⟩
  cases hkey : key x with
  | none => rfl
  | some k =>
    have hall := h.2
    simp only [hkey, all_eq_true] at hall ⊢
    exact fun y hy => hall y (hsublist.subset hy)

theorem lasts_idempotent (xs : List α) :
    lasts live key (lasts live key xs) = lasts live key xs := by
  induction xs with
  | nil => rfl
  | cons x xs ih =>
    cases h : stays live key x xs with
    | false => simp [lasts, h, ih]
    | true => simp [lasts, h, ih, stays_of_sublist (lasts_sublist xs) h]

@[grind] def flags (live : α → Bool) (key : α → Option κ) : List α → List Bool
  | [] => []
  | x :: xs => stays live key x xs :: flags live key xs

@[grind] def lastIndex (key : α → Option κ) (k : κ) : List α → Option Nat
  | [] => none
  | x :: xs =>
    match lastIndex key k xs with
    | some i => some (i + 1)
    | none => if key x = some k then some 0 else none

/-- The flag at the position is taken back. -/
@[grind] def retract : Option Nat → List Bool → List Bool
  | none, keep => keep
  | some i, keep => keep.set i false

@[simp] theorem length_flags (xs : List α) : (flags live key xs).length = xs.length := by
  induction xs with
  | nil => rfl
  | cons x xs ih => simp [flags, ih]

theorem lasts_eq_flags (xs : List α) :
    lasts live key xs =
      (xs.zip (flags live key xs)).filterMap fun e => if e.2 then some e.1 else none := by
  induction xs with
  | nil => rfl
  | cons x xs ih => cases h : stays live key x xs <;> simp [lasts, flags, h, ih]

theorem lastIndex_append (k : κ) (xs : List α) (x : α) :
    lastIndex key k (xs ++ [x]) =
      if key x = some k then some xs.length else lastIndex key k xs := by
  induction xs with
  | nil => simp [lastIndex]
  | cons y ys ih =>
    by_cases hkey : key x = some k
    · simp [lastIndex, ih, hkey]
    · simp [lastIndex, ih, hkey]

theorem exists_of_lastIndex (h : lastIndex key k xs = some i) :
    ∃ x ∈ xs, key x = some k := by
  induction xs generalizing i with
  | nil => cases h
  | cons y ys ih =>
    simp only [lastIndex] at h
    split at h
    · rename_i j hj
      obtain ⟨x, hx, hkey⟩ := ih hj
      exact ⟨x, mem_cons_of_mem y hx, hkey⟩
    · split at h
      · exact ⟨y, mem_cons_self, ‹_›⟩
      · cases h

theorem lastIndex_lt (h : lastIndex key k xs = some i) :
    i < xs.length := by
  induction xs generalizing i with
  | nil => cases h
  | cons y ys ih =>
    simp only [lastIndex] at h
    split at h
    · rename_i j hj
      cases h
      simpa using ih hj
    · split at h
      · cases h
        simp
      · cases h

theorem retract_append {index : Option Nat} {keep : List Bool} (tail : List Bool)
    (h : ∀ i, index = some i → i < keep.length) :
    retract index (keep ++ tail) = retract index keep ++ tail := by
  cases index with
  | none => rfl
  | some i => simp [retract, set_append_left i false (h i rfl)]

theorem stays_eq_false (hx : key x = some k) (hy : y ∈ later) (hkey : key y = some k) :
    stays live key x later = false := by
  simp only [stays, hx, Bool.and_eq_false_imp]
  intro _
  simpa using ⟨y, hy, hkey⟩

theorem stays_append_of_ne (h : ∀ k, key x = some k → key y ≠ some k) :
    stays live key x (later ++ [y]) = stays live key x later := by
  cases hkey : key x with
  | none => simp [stays, hkey]
  | some k =>
    have hne : (key y != some k) = true := by simpa using h k hkey
    simp [stays, hkey, hne]

@[simp] theorem stays_nil (x : α) : stays live key x [] = live x := by
  cases hkey : key x <;> simp [stays, hkey]

theorem flags_append (xs : List α) (x : α) :
    flags live key (xs ++ [x]) =
      retract ((key x).bind fun k => lastIndex key k xs) (flags live key xs) ++
        [live x] := by
  induction xs with
  | nil => cases hkey : key x <;> simp [flags, retract, lastIndex]
  | cons y ys ih =>
    simp only [cons_append, flags, ih]
    cases hkey : key x with
    | none =>
      have hsame : stays live key y (ys ++ [x]) = stays live key y ys :=
        stays_append_of_ne fun k _ => by simp [hkey]
      simp [retract, hsame]
    | some k =>
      cases hlast : lastIndex key k ys with
      | some i =>
        obtain ⟨z, hz, hzkey⟩ := exists_of_lastIndex hlast
        have hsame : stays live key y (ys ++ [x]) = stays live key y ys := by
          by_cases hy : key y = some k
          · rw [stays_eq_false hy hz hzkey,
              stays_eq_false hy (mem_append_left _ hz) hzkey]
          · apply stays_append_of_ne
            rintro k' hk' hx
            exact hy (hk'.trans (hx.symm.trans hkey))
        simp [lastIndex, hlast, retract, hsame]
      | none =>
        by_cases hy : key y = some k
        · have hgone : stays live key y (ys ++ [x]) = false :=
            stays_eq_false hy (by simp) hkey
          simp [lastIndex, hlast, hy, retract, hgone]
        · have hsame : stays live key y (ys ++ [x]) = stays live key y ys := by
            apply stays_append_of_ne
            rintro k' hk' hx
            exact hy (hk'.trans (hx.symm.trans hkey))
          simp [lastIndex, hlast, hy, retract, hsame]

end DbClinic.LastOccurrences
