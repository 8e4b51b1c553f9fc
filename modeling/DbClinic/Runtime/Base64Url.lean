import Mathlib.Algebra.Order.Floor.Div
import Mathlib.Tactic

/-!
Bytes as text for the challenge of a login. Three bytes are a block of 24 bits,
which four characters of six bits write; what is left at the end is written
without padding. The decoder takes such a text apart from the values of its
characters, and refuses bits behind the last byte.
-/

namespace DbClinic.Runtime.OAuth

def TABLE : List Char := "ABCDEFGHIJKLMNOPQRSTUVWXYZabcdefghijklmnopqrstuvwxyz0123456789-_".toList

/-- `TABLE[((block >> shift) & 0x3F) as usize]`. The mask keeps the index in range. -/
def tableChar (block shift : UInt32) : Char := TABLE.getD ((block >>> shift) &&& 0x3F).toNat 'A'

/-- Three bytes at a time; one or two that are left at the end make a shorter block. -/
def base64urlEncode : List UInt8 → List Char
  | a :: b :: c :: rest =>
    let block := (a.toUInt32 <<< 16) ||| (b.toUInt32 <<< 8) ||| c.toUInt32
    tableChar block 18 :: tableChar block 12 :: tableChar block 6 :: tableChar block 0 ::
      base64urlEncode rest
  | [a, b] =>
    let block := (a.toUInt32 <<< 16) ||| (b.toUInt32 <<< 8)
    [tableChar block 18, tableChar block 12, tableChar block 6]
  | [a] =>
    let block := a.toUInt32 <<< 16
    [tableChar block 18, tableChar block 12]
  | [] => []

/-- The value of a character of the URL-safe alphabet. -/
def sextetValue (c : Char) : Option Nat :=
  if c.isUpper then some (c.toNat - 'A'.toNat)
  else if c.isLower then some (c.toNat - 'a'.toNat + 26)
  else if c.isDigit then some (c.toNat - '0'.toNat + 52)
  else if c = '-' then some 62
  else if c = '_' then some 63
  else none

/-- Four values are three bytes. Three at the end are two bytes, and two are one;
the bits that are left over have to be zero. -/
def bytesOfSextets : List Nat → Option (List UInt8)
  | w :: x :: y :: z :: rest =>
    let block := w * 2 ^ 18 + x * 2 ^ 12 + y * 2 ^ 6 + z
    (bytesOfSextets rest).map fun bytes =>
      UInt8.ofNat (block / 2 ^ 16) :: UInt8.ofNat (block / 2 ^ 8) :: UInt8.ofNat block :: bytes
  | [w, x, y] =>
    let bits := w * 2 ^ 12 + x * 2 ^ 6 + y
    if bits % 2 ^ 2 = 0 then
      some [UInt8.ofNat (bits / 2 ^ 10), UInt8.ofNat (bits / 2 ^ 2)]
    else none
  | [w, x] =>
    let bits := w * 2 ^ 6 + x
    if bits % 2 ^ 4 = 0 then some [UInt8.ofNat (bits / 2 ^ 4)] else none
  | [_] => none
  | [] => some []

def base64urlDecode (text : List Char) : Option (List UInt8) :=
  (text.mapM sextetValue).bind bytesOfSextets

def sextet (block shift : Nat) : Nat := block / 2 ^ shift % 64

theorem toNat_block (a b c : UInt8) :
    ((a.toUInt32 <<< 16) ||| (b.toUInt32 <<< 8) ||| c.toUInt32).toNat =
      a.toNat * 2 ^ 16 + b.toNat * 2 ^ 8 + c.toNat := by
  have ha := a.toNat_lt
  have hb := b.toNat_lt
  have hc := c.toNat_lt
  have htop : (a.toNat <<< 16) % 2 ^ 32 = a.toNat <<< 16 := by
    rw [Nat.shiftLeft_eq, Nat.mod_eq_of_lt (by omega)]
  have hmid : (b.toNat <<< 8) % 2 ^ 32 = b.toNat <<< 8 := by
    rw [Nat.shiftLeft_eq, Nat.mod_eq_of_lt (by omega)]
  have hab : a.toNat <<< 16 ||| b.toNat <<< 8 = (a.toNat * 2 ^ 8 + b.toNat) <<< 8 := by
    rw [← Nat.shiftLeft_add_eq_or_of_lt (by rw [Nat.shiftLeft_eq]; omega)]
    simp only [Nat.shiftLeft_eq]
    ring
  simp only [UInt32.toNat_or, UInt32.toNat_shiftLeft, UInt8.toNat_toUInt32]
  change (a.toNat <<< 16 % 2 ^ 32 ||| b.toNat <<< 8 % 2 ^ 32) ||| c.toNat = _
  rw [htop, hmid, hab, ← Nat.shiftLeft_add_eq_or_of_lt hc, Nat.shiftLeft_eq]
  ring

theorem block_zero (a b : UInt8) : (a.toUInt32 <<< 16) ||| (b.toUInt32 <<< 8) =
    (a.toUInt32 <<< 16) ||| (b.toUInt32 <<< 8) ||| (0 : UInt8).toUInt32 := by
  apply UInt32.toNat_inj.mp
  simp

theorem block_zero_zero (a : UInt8) : a.toUInt32 <<< 16 =
    (a.toUInt32 <<< 16) ||| ((0 : UInt8).toUInt32 <<< 8) ||| (0 : UInt8).toUInt32 := by
  apply UInt32.toNat_inj.mp
  simp

theorem tableChar_eq (block shift : UInt32) (h : shift.toNat < 32) :
    tableChar block shift = TABLE.getD (sextet block.toNat shift.toNat) 'A' := by
  unfold tableChar sextet
  congr 1
  rw [UInt32.toNat_and, UInt32.toNat_shiftRight, Nat.mod_eq_of_lt h, Nat.shiftRight_eq_div_pow]
  exact Nat.and_two_pow_sub_one_eq_mod _ 6

theorem sextetValue_table : ∀ n < 64, sextetValue (TABLE.getD n 'A') = some n := by
  decide +kernel

theorem sextetValue_tableChar (block shift : UInt32) (h : shift.toNat < 32) :
    sextetValue (tableChar block shift) = some (sextet block.toNat shift.toNat) := by
  rw [tableChar_eq block shift h]
  exact sextetValue_table _ (Nat.mod_lt _ (by decide))

variable {values : List Nat} {text : List Char}

theorem mapM_tableChar (block shift : UInt32) (h : shift.toNat < 32)
    (htext : text.mapM sextetValue = some values) :
    (tableChar block shift :: text).mapM sextetValue =
      some (sextet block.toNat shift.toNat :: values) := by
  rw [List.mapM_cons, sextetValue_tableChar block shift h, htext]
  rfl

variable {a b c : UInt8} {block : Nat}

theorem bytes_block (h : block = a.toNat * 2 ^ 16 + b.toNat * 2 ^ 8 + c.toNat) :
    UInt8.ofNat (block / 2 ^ 16) = a ∧ UInt8.ofNat (block / 2 ^ 8) = b ∧
      UInt8.ofNat block = c := by
  have ha := a.toNat_lt
  have hb := b.toNat_lt
  have hc := c.toNat_lt
  refine ⟨?_, ?_, ?_⟩ <;>
  · apply UInt8.toNat_inj.mp
    simp only [UInt8.toNat_ofNat']
    omega

theorem bytesOfSextets_three (h : block = a.toNat * 2 ^ 16 + b.toNat * 2 ^ 8 + c.toNat)
    {rest : List UInt8} (hrest : bytesOfSextets values = some rest) :
    bytesOfSextets (sextet block 18 :: sextet block 12 :: sextet block 6 :: sextet block 0 ::
      values) = some (a :: b :: c :: rest) := by
  have ha := a.toNat_lt
  have hb := b.toNat_lt
  have hc := c.toNat_lt
  have hjoined : sextet block 18 * 2 ^ 18 + sextet block 12 * 2 ^ 12 + sextet block 6 * 2 ^ 6 +
      sextet block 0 = block := by
    unfold sextet
    omega
  obtain ⟨hfirst, hsecond, hthird⟩ := bytes_block h
  simp only [bytesOfSextets, hjoined, hfirst, hsecond, hthird, hrest, Option.map_some]

theorem bytesOfSextets_two (h : block = a.toNat * 2 ^ 16 + b.toNat * 2 ^ 8 + (0 : UInt8).toNat) :
    bytesOfSextets [sextet block 18, sextet block 12, sextet block 6] = some [a, b] := by
  have ha := a.toNat_lt
  have hb := b.toNat_lt
  have hzero : (0 : UInt8).toNat = 0 := rfl
  have hjoined : sextet block 18 * 2 ^ 12 + sextet block 12 * 2 ^ 6 + sextet block 6 =
      block / 2 ^ 6 := by
    unfold sextet
    omega
  obtain ⟨hfirst, hsecond, -⟩ := bytes_block h
  have hspare : block / 2 ^ 6 % 2 ^ 2 = 0 := by omega
  rw [bytesOfSextets]
  simp only [hjoined, hspare, if_true, Nat.div_div_eq_div_mul, ← Nat.pow_add]
  rw [hfirst, hsecond]

theorem bytesOfSextets_one
    (h : block = a.toNat * 2 ^ 16 + (0 : UInt8).toNat * 2 ^ 8 + (0 : UInt8).toNat) :
    bytesOfSextets [sextet block 18, sextet block 12] = some [a] := by
  have ha := a.toNat_lt
  have hzero : (0 : UInt8).toNat = 0 := rfl
  have hjoined : sextet block 18 * 2 ^ 6 + sextet block 12 = block / 2 ^ 12 := by
    unfold sextet
    omega
  obtain ⟨hfirst, -, -⟩ := bytes_block h
  have hspare : block / 2 ^ 12 % 2 ^ 4 = 0 := by omega
  rw [bytesOfSextets]
  simp only [hjoined, hspare, if_true, Nat.div_div_eq_div_mul, ← Nat.pow_add]
  rw [hfirst]

theorem base64urlEncode_values (bytes : List UInt8) :
    ∃ values, (base64urlEncode bytes).mapM sextetValue = some values ∧
      bytesOfSextets values = some bytes := by
  induction bytes using base64urlEncode.induct with
  | case1 a b c rest ih =>
    obtain ⟨values, hvals, hrest⟩ := ih
    exact ⟨_, mapM_tableChar _ 18 (by decide) (mapM_tableChar _ 12 (by decide)
      (mapM_tableChar _ 6 (by decide) (mapM_tableChar _ 0 (by decide) hvals))),
      bytesOfSextets_three (toNat_block a b c) hrest⟩
  | case2 a b =>
    rw [base64urlEncode, block_zero]
    exact ⟨_, mapM_tableChar _ 18 (by decide) (mapM_tableChar _ 12 (by decide)
      (mapM_tableChar _ 6 (by decide) rfl)), bytesOfSextets_two (toNat_block a b 0)⟩
  | case3 a =>
    rw [base64urlEncode, block_zero_zero]
    exact ⟨_, mapM_tableChar _ 18 (by decide) (mapM_tableChar _ 12 (by decide) rfl),
      bytesOfSextets_one (toNat_block a 0 0)⟩
  | case4 => exact ⟨[], rfl, rfl⟩

theorem base64urlDecode_encode (bytes : List UInt8) :
    base64urlDecode (base64urlEncode bytes) = some bytes := by
  obtain ⟨values, hvals, hbytes⟩ := base64urlEncode_values bytes
  rw [base64urlDecode, hvals, Option.bind_some, hbytes]

theorem length_base64urlEncode (bytes : List UInt8) :
    (base64urlEncode bytes).length = (4 * bytes.length + 2) / 3 := by
  induction bytes using base64urlEncode.induct with
  | case1 a b c rest ih =>
    rw [base64urlEncode]
    simp only [List.length_cons, ih]
    omega
  | case2 | case3 | case4 => simp [base64urlEncode]

theorem sextetValue_of_mem (h : text.mapM sextetValue = some values) :
    ∀ c ∈ text, sextetValue c ≠ none := by
  induction text generalizing values with
  | nil => exact fun c hc => absurd hc List.not_mem_nil
  | cons c text ih =>
    rw [List.mapM_cons] at h
    cases hc : sextetValue c with
    | none =>
      rw [hc] at h
      cases h
    | some value =>
      rw [hc] at h
      cases hrest : text.mapM sextetValue with
      | none =>
        rw [hrest] at h
        cases h
      | some rest => exact List.forall_mem_cons.mpr ⟨by simp [hc], ih hrest⟩

def IsUrlSafe (c : Char) : Prop := c.isAlphanum = true ∨ c = '-' ∨ c = '_'

theorem isUrlSafe_of_sextetValue {c : Char} (h : sextetValue c ≠ none) : IsUrlSafe c := by
  have halnum : c.isAlphanum = (c.isUpper || c.isLower || c.isDigit) := rfl
  unfold sextetValue at h
  split at h <;> rename_i hupper
  · exact .inl (by simp [halnum, hupper])
  · split at h <;> rename_i hlower
    · exact .inl (by simp [halnum, hlower])
    · split at h <;> rename_i hdigit
      · exact .inl (by simp [halnum, hdigit])
      · split at h <;> rename_i hdash
        · exact .inr (.inl hdash)
        · split at h <;> rename_i hscore
          · exact .inr (.inr hscore)
          · exact absurd rfl h

/-- The text of n bytes has 4n/3 characters, rounded up, all of them URL-safe, and
the decoder of the standard gives the bytes back. -/
theorem base64urlEncode_spec (bytes : List UInt8) :
    (base64urlEncode bytes).length = 4 * bytes.length ⌈/⌉ 3 ∧
      (∀ c ∈ base64urlEncode bytes, IsUrlSafe c) ∧
      base64urlDecode (base64urlEncode bytes) = some bytes := by
  refine ⟨?_, ?_, base64urlDecode_encode bytes⟩
  · rw [length_base64urlEncode, Nat.ceilDiv_eq_add_pred_div]
    rfl
  · obtain ⟨values, hvals, -⟩ := base64urlEncode_values bytes
    exact fun c hc => isUrlSafe_of_sextetValue (sextetValue_of_mem hvals c hc)

end DbClinic.Runtime.OAuth
