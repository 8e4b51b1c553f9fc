import Mathlib.Tactic

/-!
Access to bytes that is checked as it is made: an index has to be in range, the
bounds of a slice in order and in range, and those of a slice of text on
character boundaries besides. In a text, the places before and after an ASCII
byte are boundaries.
-/

namespace DbClinic

open List

/-- An access that is out of range, or not on a character boundary. -/
inductive AccessFault where
  | index (position length : Nat)
  | slice (start stop length : Nat)
  deriving DecidableEq

namespace CheckedSlice

/-- `bytes[i]`. -/
def index (bytes : List UInt8) (i : Nat) : Except AccessFault UInt8 :=
  match bytes[i]? with
  | some b => .ok b
  | none => .error (.index i bytes.length)

/-- `bytes[start..stop]`. -/
def slice (bytes : List UInt8) (start stop : Nat) : Except AccessFault (List UInt8) :=
  if start ≤ stop ∧ stop ≤ bytes.length then .ok ((bytes.take stop).drop start)
  else .error (.slice start stop bytes.length)

def isContinuation (b : UInt8) : Bool := 0x80 ≤ b.toNat && b.toNat ≤ 0xBF

/-- `is_char_boundary`: the text ends here, or a character begins. -/
def isCharBoundary (text : List UInt8) (i : Nat) : Bool :=
  if i = 0 || i = text.length then true
  else match text[i]? with
    | some b => !isContinuation b
    | none => false

/-- `text[start..stop]`. -/
def sliceText (text : List UInt8) (start stop : Nat) : Except AccessFault (List UInt8) :=
  if start ≤ stop ∧ isCharBoundary text start ∧ isCharBoundary text stop then
    .ok ((text.take stop).drop start)
  else .error (.slice start stop text.length)

variable {b : UInt8} {bytes : List UInt8} {i start : Nat}

theorem index_ok (h : bytes[i]? = some b) :
    index bytes i = .ok b := by
  rw [index, h]

theorem index_of_lt (h : i < bytes.length) :
    index bytes i = .ok bytes[i] := index_ok (getElem?_eq_getElem h)

theorem slice_ok {stop : Nat} (hle : start ≤ stop) (hstop : stop ≤ bytes.length) :
    slice bytes start stop = .ok ((bytes.take stop).drop start) :=
  if_pos ⟨hle, hstop⟩

theorem slice_rest (h : start ≤ bytes.length) :
    slice bytes start bytes.length = .ok (bytes.drop start) := by
  rw [slice_ok h (Nat.le_refl _), take_length]

@[simp] theorem isCharBoundary_length (text : List UInt8) :
    isCharBoundary text text.length = true := by
  simp [isCharBoundary]

theorem isCharBoundary_of_byte {text : List UInt8} (h : text[i]? = some b)
    (hb : isContinuation b = false) : isCharBoundary text i = true := by
  unfold isCharBoundary
  split
  · rfl
  · rw [h]
    simp [hb]

theorem isContinuation_ascii (h : b.toNat < 0x80) : isContinuation b = false := by
  simp only [isContinuation, Bool.and_eq_false_imp, decide_eq_true_eq, decide_eq_false_iff_not]
  omega

theorem utf8EncodeChar_cases (c : Char) :
    (∃ b : UInt8, b.toNat < 0x80 ∧ String.utf8EncodeChar c = [b]) ∨
      ∃ (first : UInt8) (more : List UInt8), String.utf8EncodeChar c = first :: more ∧
        0xC0 ≤ first.toNat ∧ more ≠ [] ∧ ∀ b ∈ more, 0x80 ≤ b.toNat := by
  have hrange : c.val.toNat < 0x110000 := by
    rcases c.valid with h | h
    · exact Nat.lt_of_lt_of_le h (by omega)
    · exact h.2
  unfold String.utf8EncodeChar
  generalize c.val.toNat = v at hrange
  simp only
  split
  · refine .inl ⟨_, ?_, rfl⟩
    simp
    omega
  · refine .inr ?_
    split
    · refine ⟨_, _, rfl, ?_, nofun, ?_⟩
      · simp
        omega
      · simp
        omega
    · split
      · refine ⟨_, _, rfl, ?_, nofun, ?_⟩
        · simp
          omega
        · simp
          omega
      · refine ⟨_, _, rfl, ?_, nofun, ?_⟩
        · simp
          omega
        · simp
          omega

theorem head?_encoded (cs : List Char) (h : (cs.flatMap String.utf8EncodeChar)[0]? = some b) :
    isContinuation b = false := by
  cases cs with
  | nil => cases h
  | cons c cs =>
    rw [flatMap_cons] at h
    rcases utf8EncodeChar_cases c with ⟨b', hb', hbytes⟩ | ⟨first, more, hbytes, hfirst, -⟩
    · rw [hbytes] at h
      cases h
      exact isContinuation_ascii hb'
    · rw [hbytes] at h
      cases h
      simp only [isContinuation, Bool.and_eq_false_imp, decide_eq_true_eq,
        decide_eq_false_iff_not]
      omega

theorem isCharBoundary_succ (cs : List Char) (h : (cs.flatMap String.utf8EncodeChar)[i]? = some b)
    (hb : b.toNat < 0x80) :
    isCharBoundary (cs.flatMap String.utf8EncodeChar) (i + 1) = true := by
  have hnext : ∀ b', (cs.flatMap String.utf8EncodeChar)[i + 1]? = some b' →
      isContinuation b' = false := by
    intro b' hb'
    induction cs generalizing i with
    | nil => cases h
    | cons c cs ih =>
      rw [flatMap_cons] at h hb'
      by_cases hin : i < (String.utf8EncodeChar c).length
      · rw [getElem?_append_left hin] at h
        rcases utf8EncodeChar_cases c with ⟨only, -, hbytes⟩ |
            ⟨first, more, hbytes, hfirst, -, hmore⟩
        · rw [hbytes] at hb' hin
          obtain rfl : i = 0 := Nat.lt_one_iff.mp hin
          exact head?_encoded cs hb'
        · -- no byte of a longer character is an ASCII byte
          rw [hbytes] at h
          rcases mem_cons.mp (mem_of_getElem? h) with rfl | hmem
          · omega
          · have := hmore b hmem
            omega
      · rw [getElem?_append_right (by omega)] at h hb'
        refine ih h ?_
        rw [← hb']
        congr 1
        omega
  cases hsucc : (cs.flatMap String.utf8EncodeChar)[i + 1]? with
  | none =>
    have hlen := List.getElem?_eq_none_iff.mp hsucc
    obtain ⟨hlt, -⟩ := List.getElem?_eq_some_iff.mp h
    have hend : i + 1 = (cs.flatMap String.utf8EncodeChar).length := by omega
    rw [hend]
    exact isCharBoundary_length _
  | some b' => exact isCharBoundary_of_byte hsucc (hnext b' hsucc)

end CheckedSlice

end DbClinic
