import Mathlib.Data.List.Basic

/-!
Patterns with two wildcards over any alphabet: one symbol stands for a single letter, the
other for any number of letters, and every further symbol for itself.
-/

namespace DbClinic.Glob

open List

variable {α : Type} (one many : α)

inductive Matches : List α → List α → Prop
  | nil : Matches [] []
  | one {pattern text : List α} (a : α) :
      Matches pattern text → Matches (one :: pattern) (a :: text)
  | many {pattern text : List α} (skipped : List α) :
      Matches pattern text → Matches (many :: pattern) (skipped ++ text)
  | literal {a : α} {pattern text : List α} : a ≠ one → a ≠ many → Matches pattern text →
      Matches (a :: pattern) (a :: text)

/-- A pattern without wildcards. -/
def Plain (pattern : List α) : Prop := one ∉ pattern ∧ many ∉ pattern

variable {one many}

variable {text pattern : List α} {a : α}

theorem matches_nil_iff : Matches one many [] text ↔ text = [] := by
  constructor
  · rintro ⟨⟩
    rfl
  · rintro rfl
    exact .nil

theorem matches_literal_iff (hone : a ≠ one) (hmany : a ≠ many) :
    Matches one many (a :: pattern) text ↔
      ∃ rest, text = a :: rest ∧ Matches one many pattern rest := by
  constructor
  · intro h
    cases h with
    | one => exact absurd rfl hone
    | many => exact absurd rfl hmany
    | literal _ _ h => exact ⟨_, rfl, h⟩
  · rintro ⟨rest, rfl, h⟩
    exact .literal hone hmany h

theorem matches_one_iff (hne : one ≠ many) :
    Matches one many (one :: pattern) text ↔
      ∃ a rest, text = a :: rest ∧ Matches one many pattern rest := by
  constructor
  · intro h
    cases h with
    | one a h => exact ⟨a, _, rfl, h⟩
    | many => exact absurd rfl hne
    | literal hone => exact absurd rfl hone
  · rintro ⟨a, rest, rfl, h⟩
    exact .one a h

theorem matches_many_iff (hne : one ≠ many) :
    Matches one many (many :: pattern) text ↔
      ∃ skipped rest, text = skipped ++ rest ∧ Matches one many pattern rest := by
  constructor
  · intro h
    cases h with
    | one => exact absurd rfl hne
    | many skipped h => exact ⟨skipped, _, rfl, h⟩
    | literal _ hmany => exact absurd rfl hmany
  · rintro ⟨skipped, rest, rfl, h⟩
    exact .many skipped h

theorem matches_self (pattern : List α) : Matches one many pattern pattern := by
  induction pattern with
  | nil => exact .nil
  | cons a pattern ih =>
    by_cases hone : a = one
    · subst hone
      exact .one a ih
    · by_cases hmany : a = many
      · subst hmany
        exact Matches.many [a] ih
      · exact .literal hone hmany ih

theorem Matches.append {more rest : List α} (h : Matches one many pattern text)
    (hmore : Matches one many more rest) : Matches one many (pattern ++ more) (text ++ rest) := by
  induction h with
  | nil => exact hmore
  | one a _ ih => exact .one a ih
  | many skipped _ ih =>
    rw [append_assoc]
    exact .many skipped ih
  | literal hone hmany _ ih => exact .literal hone hmany ih

theorem Matches.split {more : List α} (hne : one ≠ many)
    (h : Matches one many (pattern ++ more) text) :
    ∃ front back, text = front ++ back ∧ Matches one many pattern front ∧
      Matches one many more back := by
  induction pattern generalizing text with
  | nil => exact ⟨[], text, rfl, .nil, h⟩
  | cons a pattern ih =>
    rw [cons_append] at h
    by_cases hone : a = one
    · subst hone
      obtain ⟨b, rest, rfl, htail⟩ := (matches_one_iff hne).mp h
      obtain ⟨front, back, rfl, hfront, hback⟩ := ih htail
      exact ⟨b :: front, back, rfl, .one b hfront, hback⟩
    · by_cases hmany : a = many
      · subst hmany
        obtain ⟨skipped, rest, rfl, htail⟩ := (matches_many_iff hne).mp h
        obtain ⟨front, back, rfl, hfront, hback⟩ := ih htail
        exact ⟨skipped ++ front, back, by simp, .many skipped hfront, hback⟩
      · obtain ⟨rest, rfl, htail⟩ := (matches_literal_iff hone hmany).mp h
        obtain ⟨front, back, rfl, hfront, hback⟩ := ih htail
        exact ⟨a :: front, back, rfl, .literal hone hmany hfront, hback⟩

theorem Plain.matches_iff (h : Plain one many pattern) :
    Matches one many pattern text ↔ text = pattern := by
  induction pattern generalizing text with
  | nil => exact matches_nil_iff
  | cons a pattern ih =>
    obtain ⟨hone, hmany⟩ := h
    rw [mem_cons, not_or] at hone hmany
    rw [matches_literal_iff (Ne.symm hone.1) (Ne.symm hmany.1)]
    simp only [ih ⟨hone.2, hmany.2⟩]
    constructor
    · rintro ⟨rest, rfl, rfl⟩
      rfl
    · rintro rfl
      exact ⟨pattern, rfl, rfl⟩

theorem matches_many (text : List α) : Matches one many [many] text := by
  have h : Matches one many [many] (text ++ []) := .many text .nil
  rwa [append_nil] at h

theorem Matches.count_le [DecidableEq α] (h : Matches one many pattern text) (hone : a ≠ one)
    (hmany : a ≠ many) :
    pattern.count a ≤ text.count a := by
  induction h with
  | nil => exact Nat.le_refl _
  | one b _ ih =>
    rw [count_cons_of_ne (Ne.symm hone)]
    exact Nat.le_trans ih count_le_count_cons
  | many skipped _ ih =>
    rw [count_cons_of_ne (Ne.symm hmany), count_append]
    omega
  | literal _ _ _ ih =>
    rw [count_cons, count_cons]
    omega

theorem Matches.extend {rest : List α} (hne : one ≠ many)
    (h : Matches one many (pattern ++ [many]) text) :
    Matches one many (pattern ++ [many]) (text ++ rest) := by
  obtain ⟨front, back, rfl, hfront, -⟩ := h.split hne
  rw [append_assoc]
  exact hfront.append (matches_many (back ++ rest))

theorem matches_of_prefix {front : List α} (h : front <+: text) (count : Nat) :
    Matches one many (front ++ List.replicate (count + 1) many) text := by
  obtain ⟨rest, rfl⟩ := h
  apply (matches_self front).append
  induction count with
  | zero => exact matches_many rest
  | succ count ih => exact Matches.many [] ih

theorem matches_pieces [DecidableEq α] (hone : a ≠ one) (hmany : a ≠ many)
    (hhead : text.head? = some a) {count : Nat} (hcount : count + 1 ≤ text.count a) :
    Matches one many (List.replicate (count + 1) [a, many]).flatten text := by
  induction count generalizing text with
  | zero =>
    obtain ⟨rest, rfl⟩ := head?_eq_some_iff.mp hhead
    exact .literal hone hmany (matches_many rest)
  | succ count ih =>
    obtain ⟨rest, rfl⟩ := head?_eq_some_iff.mp hhead
    rw [count_cons_self] at hcount
    -- the next piece begins at the next of these letters
    have hmem : a ∈ rest := count_pos_iff.mp (by omega)
    obtain ⟨skipped, back, rfl, hskipped⟩ := eq_append_cons_of_mem hmem
    rw [count_append, count_eq_zero.mpr hskipped] at hcount
    have hback : Matches one many (List.replicate (count + 1) [a, many]).flatten (a :: back) := by
      apply ih rfl
      omega
    rw [replicate_succ, flatten_cons]
    exact .literal hone hmany (.many skipped hback)

section Matcher

variable [DecidableEq α] (one many)

def isMatch : List α → List α → Bool
  | [], text => text.isEmpty
  | a :: pattern, text =>
    if a = many then
      (List.range (text.length + 1)).any fun skip => isMatch pattern (text.drop skip)
    else
      match text with
      | [] => false
      | b :: rest => (a = one || a = b) && isMatch pattern rest

variable {one many}

theorem isMatch_iff (hne : one ≠ many) :
    isMatch one many pattern text = true ↔ Matches one many pattern text := by
  induction pattern generalizing text with
  | nil =>
    rw [matches_nil_iff]
    exact List.isEmpty_iff
  | cons a pattern ih =>
    unfold isMatch
    by_cases hmany : a = many
    · subst hmany
      rw [if_pos rfl, matches_many_iff hne, any_eq_true]
      constructor
      · rintro ⟨skip, -, hskip⟩
        exact ⟨text.take skip, text.drop skip, (take_append_drop skip text).symm,
          ih.mp hskip⟩
      · rintro ⟨skipped, rest, rfl, hrest⟩
        refine ⟨skipped.length, ?_, ?_⟩
        · rw [mem_range, length_append]
          omega
        · rw [drop_left]
          exact ih.mpr hrest
    · rw [if_neg hmany]
      by_cases hone : a = one
      · subst hone
        rw [matches_one_iff hne]
        cases text with
        | nil => simp
        | cons b rest => simp [ih]
      · rw [matches_literal_iff hone hmany]
        cases text with
        | nil => simp
        | cons b rest =>
          simp only [hone, decide_false, Bool.false_or, Bool.and_eq_true, decide_eq_true_eq, ih,
            List.cons.injEq]
          constructor
          · rintro ⟨rfl, hrest⟩
            exact ⟨rest, ⟨rfl, rfl⟩, hrest⟩
          · rintro ⟨other, ⟨rfl, rfl⟩, hrest⟩
            exact ⟨rfl, hrest⟩

end Matcher

end DbClinic.Glob
