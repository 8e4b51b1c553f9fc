import Mathlib.Data.List.DropRight
import Mathlib.Data.List.TakeWhile
import DbClinic.Runtime.Text

/-!
Trimmed texts: where they lie in the text, and what they begin and end with.
-/

namespace DbClinic.Runtime

open List

variable {cs : List Char}

theorem trimEnd_append (cs : List Char) {ds : List Char} (h : trimEnd ds ≠ []) :
    trimEnd (cs ++ ds) = cs ++ trimEnd ds := by
  unfold trimEnd at h ⊢
  rw [reverse_append, dropWhile_append, if_neg (by simpa using h)]
  simp

theorem trimEnd_append_blank (cs : List Char) :
    ∃ blank, cs = trimEnd cs ++ blank ∧ ∀ c ∈ blank, isWhitespace c = true := by
  refine ⟨(cs.reverse.takeWhile isWhitespace).reverse, ?_, ?_⟩
  · unfold trimEnd
    rw [← reverse_append, takeWhile_append_dropWhile, reverse_reverse]
  · intro c hc
    exact mem_takeWhile_imp (mem_reverse.mp hc)

theorem trimEnd_ne_nil {c : Char} (hc : c ∈ cs) (hblank : isWhitespace c = false) :
    trimEnd cs ≠ [] := by
  intro hnil
  unfold trimEnd at hnil
  rw [reverse_eq_nil_iff, dropWhile_eq_nil_iff] at hnil
  rw [hnil c (mem_reverse.mpr hc)] at hblank
  cases hblank

theorem isWhitespace_of_isDigit {c : Char} (h : c.isDigit) : isWhitespace c = false := by
  have hrange : 48 ≤ c.toNat ∧ c.toNat ≤ 57 := by
    simpa [Char.isDigit, UInt32.le_iff_toNat_le] using h
  simp [isWhitespace]
  omega

theorem trim_eq_nil (h : trim cs = []) : ∀ c ∈ cs, isWhitespace c = true := by
  unfold trim at h
  rw [reverse_eq_nil_iff, dropWhile_eq_nil_iff] at h
  apply dropWhile_eq_nil_iff.mp
  cases hrest : cs.dropWhile isWhitespace with
  | nil => rfl
  | cons c rest =>
    have hblank := h c (mem_reverse.mpr (hrest ▸ mem_cons_self))
    have hhead := head?_dropWhile_not isWhitespace cs
    rw [hrest] at hhead
    simp only [head?_cons] at hhead
    rw [hblank] at hhead
    cases hhead

theorem trim_of_blank (h : ∀ c ∈ cs, isWhitespace c = true) : trim cs = [] := by
  unfold trim
  rw [dropWhile_eq_nil_iff.mpr h]
  rfl

theorem prefix_trim (cs : List Char) : trim cs <+: cs.dropWhile isWhitespace := by
  rw [← reverse_suffix, trim, reverse_reverse]
  exact dropWhile_suffix isWhitespace

theorem infix_trim (cs : List Char) : trim cs <:+: cs :=
  (prefix_trim cs).isInfix.trans (dropWhile_suffix isWhitespace).isInfix

theorem getLast?_trim {c : Char} (h : c ∈ (trim cs).getLast?) :
    isWhitespace c = false := by
  unfold trim at h
  rw [getLast?_reverse] at h
  have hhead := head?_dropWhile_not isWhitespace (cs.dropWhile isWhitespace).reverse
  rw [Option.mem_def.mp h] at hhead
  exact hhead

theorem trimEnd_trimEnd (cs : List Char) : trimEnd (trimEnd cs) = trimEnd cs := by
  unfold trimEnd
  rw [reverse_reverse, dropWhile_idempotent]

theorem trim_of_head (h : ∀ c ∈ cs.head?, isWhitespace c = false) :
    trim cs = trimEnd cs := by
  cases cs with
  | nil => rfl
  | cons c rest =>
    have hc := h c (by simp)
    simp [trim, trimEnd, hc]

theorem head?_trim {c : Char} (h : c ∈ (trim cs).head?) :
    isWhitespace c = false := by
  obtain ⟨more, hmore⟩ := prefix_trim cs
  have hhead := head?_dropWhile_not isWhitespace cs
  rw [← hmore, head?_append, Option.mem_def.mp h] at hhead
  simpa using hhead

theorem trim_trim (cs : List Char) : trim (trim cs) = trim cs := by
  rw [trim_of_head fun c hc => head?_trim hc]
  exact trimEnd_trimEnd (cs.dropWhile isWhitespace)

theorem trim_of_ends (hhead : ∀ c ∈ cs.head?, isWhitespace c = false)
    (hlast : ∀ c ∈ cs.getLast?, isWhitespace c = false) : trim cs = cs := by
  have hfront : cs.dropWhile isWhitespace = cs := by
    cases cs with
    | nil => rfl
    | cons c cs =>
      rw [dropWhile_cons_of_neg]
      rw [hhead c rfl]
      exact Bool.false_ne_true
  have hback : cs.reverse.dropWhile isWhitespace = cs.reverse := by
    cases hreverse : cs.reverse with
    | nil => rfl
    | cons c rest =>
      have hc : cs.getLast? = some c := by
        rw [← head?_reverse, hreverse]
        rfl
      rw [dropWhile_cons_of_neg]
      rw [hlast c hc]
      exact Bool.false_ne_true
  unfold trim
  rw [hfront, hback, reverse_reverse]

theorem head?_of_trim (h : trim cs = cs) : ∀ c ∈ cs.head?, isWhitespace c = false := by
  intro c hc
  rw [← h] at hc
  exact head?_trim hc

theorem getLast?_of_trim (h : trim cs = cs) : ∀ c ∈ cs.getLast?, isWhitespace c = false := by
  intro c hc
  rw [← h] at hc
  exact getLast?_trim hc

theorem splitWhitespace_cons {c : Char} (hc : isWhitespace c = false) (cs : List Char) :
    ∃ word words, splitWhitespace (c :: cs) = (c :: word) :: words := by
  cases hparts : cs.splitOnP isWhitespace with
  | nil => exact absurd hparts (splitOnP_ne_nil isWhitespace cs)
  | cons part parts =>
    refine ⟨part, parts.filter (· ≠ []), ?_⟩
    unfold splitWhitespace
    rw [splitOnP_cons_eq_if_modifyHead, if_neg (by simp [hc]), hparts]
    simp

theorem blank_of_splitWhitespace (h : splitWhitespace cs = []) :
    ∀ c ∈ cs, isWhitespace c = true := by
  induction cs with
  | nil => nofun
  | cons c cs ih =>
    cases hc : isWhitespace c with
    | false =>
      obtain ⟨word, words, hwords⟩ := splitWhitespace_cons hc cs
      rw [hwords] at h
      cases h
    | true =>
      have happend := @splitWhitespace_append cs c [] hc
      rw [nil_append, h] at happend
      intro d hd
      rcases mem_cons.mp hd with rfl | hd
      · exact hc
      · exact ih (by simpa [splitWhitespace] using happend.symm) d hd

end DbClinic.Runtime
