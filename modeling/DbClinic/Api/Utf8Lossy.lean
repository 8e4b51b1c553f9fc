import DbClinic.Api.SseParser

/-!
What the lossy decoding keeps of its bytes. The bytes of a text are read as that
text. Whatever the bytes are, each `%` among them is read as that character, and
no other byte is.
-/

namespace DbClinic.Api

open List

variable {first second third : UInt8} {v n : Nat} {rest : List UInt8}

theorem utf8Step_one (rest : List UInt8) (hfirst : first.toNat = v) (hhigh : v ≤ 0x7F) :
    utf8Step first rest = (Char.ofNat v, 1) := by
  have hascii : v < 0x80 := by omega
  simp [utf8Step, hfirst, hascii]

theorem utf8Step_two (rest : List UInt8) (hfirst : first.toNat = v / 64 % 32 + 0xC0)
    (hsecond : second.toNat = v % 64 + 0x80) (hlow : 0x7F < v) (hhigh : v ≤ 0x7FF) :
    utf8Step first (second :: rest) = (Char.ofNat v, 2) := by
  have hval : (first.toNat - 0xC0) * 64 + (second.toNat - 0x80) = v := by omega
  have hlead : 0xC2 ≤ first.toNat ∧ first.toNat ≤ 0xDF := by omega
  have hcontinues : 0x80 ≤ second.toNat ∧ second.toNat ≤ 0xBF := by omega
  have hascii : ¬first.toNat < 0x80 := by omega
  simp [utf8Step, hascii, hlead, hcontinues, hval]

theorem utf8Step_three (rest : List UInt8) (hfirst : first.toNat = v / 4096 % 16 + 0xE0)
    (hsecond : second.toNat = v / 64 % 64 + 0x80) (hthird : third.toNat = v % 64 + 0x80)
    (hlow : 0x7FF < v) (hhigh : v ≤ 0xFFFF) (hvalid : v < 0xD800 ∨ 0xDFFF < v) :
    utf8Step first (second :: third :: rest) = (Char.ofNat v, 3) := by
  have hval : (first.toNat - 0xE0) * 4096 + (second.toNat - 0x80) * 64 +
      (third.toNat - 0x80) = v := by omega
  have hlead : 0xE0 ≤ first.toNat ∧ first.toNat ≤ 0xEF := by omega
  -- the bounds of the second byte leave out the overlong forms and the surrogates
  have hlower : (if first.toNat = 0xE0 then 0xA0 else if first.toNat = 0xF0 then 0x90 else 0x80) ≤
      second.toNat := by
    split
    · omega
    · split <;> omega
  have hupper : second.toNat ≤
      (if first.toNat = 0xED then 0x9F else if first.toNat = 0xF4 then 0x8F else 0xBF) := by
    split
    · omega
    · split <;> omega
  have hcontinues : 0x80 ≤ third.toNat ∧ third.toNat ≤ 0xBF := by omega
  have hascii : ¬first.toNat < 0x80 := by omega
  have htwo : ¬first.toNat ≤ 0xDF := by omega
  simp [utf8Step, hascii, htwo, hlead, hlower, hupper, hcontinues, hval]

theorem utf8Step_four {fourth : UInt8} (rest : List UInt8)
    (hfirst : first.toNat = v / 262144 % 8 + 0xF0) (hsecond : second.toNat = v / 4096 % 64 + 0x80)
    (hthird : third.toNat = v / 64 % 64 + 0x80) (hfourth : fourth.toNat = v % 64 + 0x80)
    (hlow : 0xFFFF < v) (hhigh : v < 0x110000) :
    utf8Step first (second :: third :: fourth :: rest) = (Char.ofNat v, 4) := by
  have hval : (first.toNat - 0xF0) * 262144 + (second.toNat - 0x80) * 4096 +
      (third.toNat - 0x80) * 64 + (fourth.toNat - 0x80) = v := by omega
  have hlead : 0xF0 ≤ first.toNat ∧ first.toNat ≤ 0xF4 := by omega
  have hlower : (if first.toNat = 0xE0 then 0xA0 else if first.toNat = 0xF0 then 0x90 else 0x80) ≤
      second.toNat := by
    split
    · omega
    · split <;> omega
  have hupper : second.toNat ≤
      (if first.toNat = 0xED then 0x9F else if first.toNat = 0xF4 then 0x8F else 0xBF) := by
    split
    · omega
    · split <;> omega
  have hthirdRange : 0x80 ≤ third.toNat ∧ third.toNat ≤ 0xBF := by omega
  have hfourthRange : 0x80 ≤ fourth.toNat ∧ fourth.toNat ≤ 0xBF := by omega
  have hascii : ¬first.toNat < 0x80 := by omega
  have htwo : ¬first.toNat ≤ 0xDF := by omega
  have hthree : ¬first.toNat ≤ 0xEF := by omega
  simp [utf8Step, hascii, htwo, hthree, hlead, hlower, hupper, hthirdRange, hfourthRange, hval]

theorem utf8Step_encoded (c : Char) (rest : List UInt8) :
    ∃ first more, String.utf8EncodeChar c = first :: more ∧
      utf8Step first (more ++ rest) = (c, more.length + 1) := by
  have hrange : c.val.toNat < 0xD800 ∨ 0xDFFF < c.val.toNat ∧ c.val.toNat < 0x110000 := c.valid
  have hc : c = Char.ofNat c.val.toNat := (Char.ofNat_toNat c).symm
  unfold String.utf8EncodeChar
  generalize c.val.toNat = v at hrange hc
  subst hc
  simp only
  have hbyte {n : Nat} (hn : n < 256) : (UInt8.ofNat n).toNat = n := by simp; omega
  split
  · exact ⟨_, _, rfl, utf8Step_one rest (hbyte (by omega)) (by omega)⟩
  · split
    · exact ⟨_, _, rfl, utf8Step_two rest (hbyte (by omega)) (hbyte (by omega)) (by omega)
        (by omega)⟩
    · split
      · exact ⟨_, _, rfl, utf8Step_three rest (hbyte (by omega)) (hbyte (by omega))
          (hbyte (by omega)) (by omega) (by omega) (by omega)⟩
      · exact ⟨_, _, rfl, utf8Step_four rest (hbyte (by omega)) (hbyte (by omega))
          (hbyte (by omega)) (hbyte (by omega)) (by omega) (by omega)⟩

theorem lossyFrom_skip (front rest : List UInt8) :
    lossyFrom front.length (front ++ rest) = lossyFrom 0 rest := by
  induction front with
  | nil => rfl
  | cons b front ih => exact ih

theorem fromUtf8Lossy_encoded (cs : List Char) :
    fromUtf8Lossy (cs.flatMap String.utf8EncodeChar) = cs := by
  unfold fromUtf8Lossy
  induction cs with
  | nil => rfl
  | cons c cs ih =>
    obtain ⟨first, more, hbytes, hstep⟩ :=
      utf8Step_encoded c (cs.flatMap String.utf8EncodeChar)
    rw [flatMap_cons, hbytes, cons_append, lossyFrom, hstep]
    simp only [Nat.add_sub_cancel]
    rw [lossyFrom_skip, ih]

def percent : UInt8 := 0x25

theorem ofNat_ne_percent (h : n ≠ 0x25) : Char.ofNat n ≠ '%' := by
  intro heq
  have hval : (Char.ofNat n).toNat = 0x25 := congrArg Char.toNat heq
  by_cases hvalid : n.isValidChar
  · rw [show Char.ofNat n = Char.ofNatAux n hvalid from dif_pos hvalid] at hval
    exact h hval
  · rw [show Char.ofNat n = _ from dif_neg hvalid] at hval
    cases hval

theorem percent_notMem_take (h : ∀ i < n, 0x80 ≤ (rest.getD i 0).toNat) :
    percent ∉ rest.take n := by
  intro hmem
  obtain ⟨i, hi, hbyte⟩ := mem_iff_getElem.mp hmem
  rw [length_take] at hi
  rw [getElem_take] at hbyte
  have hrange := h i (by omega)
  rw [getD_eq_getElem?_getD, getElem?_eq_getElem (by omega), Option.getD_some,
    hbyte] at hrange
  exact absurd hrange (by decide)

theorem read_wide {c : Char} (hfirst : ¬first.toNat < 0x80) (hc : c ≠ '%')
    (hmore : ∀ i < n - 1, 0x80 ≤ (rest.getD i 0).toNat) :
    ((c, n).1 = '%' ↔ first = percent) ∧ percent ∉ rest.take ((c, n).2 - 1) := by
  have hne : first ≠ percent := by
    rintro rfl
    exact hfirst (by decide)
  exact ⟨iff_of_false hc hne, percent_notMem_take hmore⟩

theorem utf8Step_percent (first : UInt8) (rest : List UInt8) :
    ((utf8Step first rest).1 = '%' ↔ first = percent) ∧
      percent ∉ rest.take ((utf8Step first rest).2 - 1) := by
  have hreplacement : replacementCharacter ≠ '%' := by decide
  unfold utf8Step
  extract_lets b byte continues low high second
  have hlow : 0x80 ≤ low ∧ (b = 0xE0 → 0xA0 ≤ low) ∧ (b = 0xF0 → 0x90 ≤ low) := by
    simp only [low]
    split
    · omega
    · split <;> omega
  have hcontinues {i : Nat} (h : continues i = true) : 0x80 ≤ byte i := by
    simp only [continues, Bool.and_eq_true, decide_eq_true_eq] at h
    exact h.1
  have hsecond (h : second = true) : low ≤ byte 0 := by
    simp only [second, Bool.and_eq_true, decide_eq_true_eq] at h
    exact h.1
  -- the bytes behind the first of a character of two, three and four bytes
  have hone (h0 : 0x80 ≤ byte 0) : ∀ i < 1, 0x80 ≤ byte i := fun i hi => by
    obtain rfl : i = 0 := by omega
    exact h0
  have htwo (h0 : 0x80 ≤ byte 0) (h1 : 0x80 ≤ byte 1) :
      ∀ i < 2, 0x80 ≤ byte i := fun i hi => by
    obtain rfl | rfl : i = 0 ∨ i = 1 := by omega
    · exact h0
    · exact h1
  have hthree (h0 : 0x80 ≤ byte 0) (h1 : 0x80 ≤ byte 1) (h2 : 0x80 ≤ byte 2) :
      ∀ i < 3, 0x80 ≤ byte i := fun i hi => by
    obtain rfl | rfl | rfl : i = 0 ∨ i = 1 ∨ i = 2 := by omega
    · exact h0
    · exact h1
    · exact h2
  split
  · rename_i hascii
    refine ⟨?_, by simp⟩
    rw [← UInt8.toNat_inj]
    constructor
    · intro heq
      by_contra hne
      exact ofNat_ne_percent hne heq
    · intro heq
      rw [show b = 0x25 from heq]
  · rename_i hwide
    split
    · rename_i hlead
      simp only [Bool.and_eq_true, decide_eq_true_eq] at hlead
      split
      · rename_i hnext
        have h0 := hcontinues hnext
        exact read_wide hwide (ofNat_ne_percent (by omega)) (hone h0)
      · exact read_wide hwide hreplacement (by omega)
    · split
      · rename_i hlead
        simp only [Bool.and_eq_true, decide_eq_true_eq] at hlead
        split
        · exact read_wide hwide hreplacement (by omega)
        · rename_i hnext
          have h0 := hsecond (by simpa using hnext)
          split
          · exact read_wide hwide hreplacement (hone (by omega))
          · rename_i hthird
            have h1 := hcontinues (by simpa using hthird)
            exact read_wide hwide (ofNat_ne_percent (by omega)) (htwo (by omega) h1)
      · split
        · rename_i hlead
          simp only [Bool.and_eq_true, decide_eq_true_eq] at hlead
          split
          · exact read_wide hwide hreplacement (by omega)
          · rename_i hnext
            have h0 := hsecond (by simpa using hnext)
            split
            · exact read_wide hwide hreplacement (hone (by omega))
            · rename_i hthird
              have h1 := hcontinues (by simpa using hthird)
              split
              · exact read_wide hwide hreplacement (htwo (by omega) h1)
              · rename_i hfourth
                have h2 := hcontinues (by simpa using hfourth)
                exact read_wide hwide (ofNat_ne_percent (by omega)) (hthree (by omega) h1 h2)
        · exact read_wide hwide hreplacement (by omega)

theorem count_lossyFrom (skip : Nat) (bytes : List UInt8) :
    (lossyFrom skip bytes).count '%' = (bytes.drop skip).count percent := by
  induction bytes generalizing skip with
  | nil => cases skip <;> rfl
  | cons first rest ih =>
    cases skip with
    | succ skip => exact ih skip
    | zero =>
      obtain ⟨hread, hskipped⟩ := utf8Step_percent first rest
      have hsplit := take_append_drop ((utf8Step first rest).2 - 1) rest
      rw [lossyFrom, drop_zero, count_cons, count_cons, ih, ← hsplit,
        count_append, count_eq_zero.mpr hskipped, hsplit, Nat.zero_add]
      simp [hread]

theorem count_fromUtf8Lossy (bytes : List UInt8) :
    (fromUtf8Lossy bytes).count '%' = bytes.count percent := count_lossyFrom 0 bytes

end DbClinic.Api
