import DbClinic.Api.Utf8Lossy
import DbClinic.Mcp.FramingRoundTrip
import DbClinic.Runtime.CommandValidation

/-!
The target that a proxy URL carries in its `mcp_url` parameter, with its escapes
decoded. The decoder counts bytes and reads the two bytes behind a `%` as a slice
of the text. Where these end inside a character the slice panics, and where they
are a sign and a digit they are taken for a number. All other values are decoded
as their escapes say.
-/

namespace DbClinic.Mcp

open List
open DbClinic.Api (fromUtf8Lossy fromUtf8Lossy_encoded count_fromUtf8Lossy percent)
open DbClinic.Runtime (splitOnce containsText dropBytes dropBytes_add byteLength byteLength_cons)
open DbClinic.Runtime.Parser (hexValue)

def CCR_PROXY_PATH_MARKERS : List String := ["/v2/session_ingress/shttp/mcp/", "/v2/ccr-sessions/"]

/-- `&text[start..stop]`; an offset that is no character boundary panics. -/
def sliceBytes (start stop : Nat) (text : List Char) : Option (List Char) :=
  match dropBytes start text, dropBytes stop text with
  | some tail, some rest => some (tail.take (tail.length - rest.length))
  | _, _ => none

def hexOnto (value : Nat) (c : Char) : Option Nat :=
  (hexValue c).bind fun digit =>
    if value * 16 + digit < 256 then some (value * 16 + digit) else none

/-- `u8::from_str_radix` with radix 16. -/
def u8FromStrRadix16 : List Char → Option UInt8
  | [] => none
  | ['+'] => none
  | ['-'] => none
  | '+' :: digits => (digits.foldlM hexOnto 0).map UInt8.ofNat
  | digits => (digits.foldlM hexOnto 0).map UInt8.ofNat

def plus : UInt8 := 0x2B

def space : UInt8 := 0x20

/-- The loop over the bytes from an index on; `skip` of them were read already. -/
def decodeFrom (value : List Char) : (index skip : Nat) → List UInt8 → Option (List UInt8)
  | _, _, [] => some []
  | index, skip + 1, _ :: rest => decodeFrom value (index + 1) skip rest
  | index, 0, byte :: rest =>
    if byte = percent ∧ 2 ≤ rest.length then
      match sliceBytes (index + 1) (index + 3) value with
      | none => none
      | some hex =>
        match u8FromStrRadix16 hex with
        | some decoded => (decodeFrom value (index + 1) 2 rest).map (decoded :: ·)
        | none => (decodeFrom value (index + 1) 0 rest).map (byte :: ·)
    else if byte = plus then (decodeFrom value (index + 1) 0 rest).map (space :: ·)
    else (decodeFrom value (index + 1) 0 rest).map (byte :: ·)

/-- Nothing where the decoder panics. -/
def percentDecode (value : List Char) : Option (List Char) :=
  (decodeFrom value 0 0 (encodeUtf8 value)).map fromUtf8Lossy

/-- The value of the first pair whose name is `mcp_url`. -/
def mcpUrlValue (query : List Char) : Option (List Char) :=
  (query.splitOn '&').findSome? fun pair =>
    match splitOnce ['='] pair with
    | some (name, value) => if name = "mcp_url".toList then some value else none
    | none => none

/-- The value that is unwrapped; a URL without one is left as it is. -/
def proxiedValue (url : List Char) : Option (List Char) :=
  if CCR_PROXY_PATH_MARKERS.any fun marker => containsText marker.toList url then
    (splitOnce ['?'] url).bind fun parts => mcpUrlValue parts.2
  else none

/-- Nothing where the source panics. -/
def unwrapCcrProxyUrl (url : List Char) : Option (List Char) :=
  match proxiedValue url with
  | some value => percentDecode value
  | none => some url

/-- A value in which each byte is an escape, in digits of either case, or the
ASCII character that has it. -/
inductive PercentEncoded : List UInt8 → List Char → Prop
  | nil : PercentEncoded [] []
  | escaped {a b : Char} {x y : Nat} {bytes : List UInt8} {cs : List Char}
      (ha : hexValue a = some x) (hb : hexValue b = some y) (h : PercentEncoded bytes cs) :
      PercentEncoded (UInt8.ofNat (x * 16 + y) :: bytes) ('%' :: a :: b :: cs)
  | kept {c : Char} {bytes : List UInt8} {cs : List Char} (hascii : c.toNat < 0x80)
      (hpercent : c ≠ '%') (hplus : c ≠ '+') (h : PercentEncoded bytes cs) :
      PercentEncoded (UInt8.ofNat c.toNat :: bytes) (c :: cs)

/-- The byte that a `%` before two characters stands for. -/
def escapedByte (a b : Char) : Option UInt8 :=
  match hexValue a, hexValue b with
  | some x, some y => some (UInt8.ofNat (x * 16 + y))
  | _, _ => none

/-- The bytes of a value in which a `%` before two hexadecimal digits is an
escape, and every other `%` stands for itself. -/
def literalBytes : List Char → List UInt8
  | [] => []
  | '%' :: a :: b :: cs =>
    match escapedByte a b with
    | some byte => byte :: literalBytes cs
    | none => percent :: literalBytes (a :: b :: cs)
  | '+' :: cs => space :: literalBytes cs
  | c :: cs => String.utf8EncodeChar c ++ literalBytes cs

structure Unwraps (url : List Char) : Prop where
  returns : unwrapCcrProxyUrl url ≠ none
  roundTrip : ∀ value target, proxiedValue url = some value →
    PercentEncoded (encodeUtf8 target) value → unwrapCcrProxyUrl url = some target
  literal : ∀ value out, proxiedValue url = some value →
    unwrapCcrProxyUrl url = some out → out = fromUtf8Lossy (literalBytes value)

/-- What the decoder does not read as it stands, right behind a `%`. -/
inductive Misread : List Char → Prop
  | signed {digit : Char} {n : Nat} (cs : List Char) (h : hexValue digit = some n) :
      Misread ('+' :: digit :: cs)
  | wide {c : Char} (cs : List Char) (h : 3 ≤ c.utf8Size) : Misread (c :: cs)
  | cut {a b : Char} (cs : List Char) (ha : a.utf8Size = 1) (hb : 2 ≤ b.utf8Size) :
      Misread (a :: b :: cs)

def Decodable (value : List Char) : Prop :=
  ∀ cs, '%' :: cs <:+ value → ¬Misread cs

variable {a c b : Char} {cs value : List Char} {n : Nat} {front : List UInt8} {byte : UInt8}

theorem hexValue_range (h : hexValue c = some n) :
    c.toNat < 0x80 ∧ n < 16 := by
  have hle {a b : Char} (hab : a ≤ b) : a.toNat ≤ b.toNat := hab
  unfold hexValue at h
  split at h
  · rename_i hrange
    have hhigh := hle hrange.2
    cases h
    simp at hhigh
    exact ⟨by omega, by simp; omega⟩
  · split at h
    · rename_i hrange
      have hhigh := hle hrange.2
      cases h
      simp at hhigh
      exact ⟨by omega, by simp; omega⟩
    · split at h
      · rename_i hrange
        have hhigh := hle hrange.2
        cases h
        simp at hhigh
        exact ⟨by omega, by simp; omega⟩
      · cases h

theorem hexValue_ne {d : Char} (h : hexValue c = some n) (hd : hexValue d = none) :
    c ≠ d := by
  rintro rfl
  rw [hd] at h
  cases h

theorem utf8Size_ascii (h : c.toNat < 0x80) : c.utf8Size = 1 := by
  rw [← String.length_utf8EncodeChar, utf8EncodeChar_ascii h, length_singleton]

theorem length_encodeUtf8 (cs : List Char) : (encodeUtf8 cs).length = byteLength cs := by
  induction cs with
  | nil => rfl
  | cons c cs ih =>
    rw [byteLength_cons, ← ih, ← String.length_utf8EncodeChar c, ← length_append]
    rfl

/-- What the decoder makes of the characters behind others. -/
def decodeBehind (before cs : List Char) : Option (List UInt8) :=
  decodeFrom (before ++ cs) (byteLength before) 0 (encodeUtf8 cs)

theorem decodeFrom_skip (value : List Char) (index : Nat) (front rest : List UInt8) :
    decodeFrom value index front.length (front ++ rest) =
      decodeFrom value (index + front.length) 0 rest := by
  induction front generalizing index with
  | nil => rfl
  | cons byte front ih =>
    rw [length_cons, cons_append, decodeFrom, ih]
    congr 1
    omega

theorem decodeFrom_kept (value : List Char) (index : Nat) (hpercent : percent ∉ front)
    (hplus : plus ∉ front) (rest : List UInt8) :
    decodeFrom value index 0 (front ++ rest) =
      (decodeFrom value (index + front.length) 0 rest).map (front ++ ·) := by
  induction front generalizing index with
  | nil => simp
  | cons byte front ih =>
    obtain ⟨hbyte, hfront⟩ := not_or.mp (mem_cons.not.mp hpercent)
    obtain ⟨hbyte', hfront'⟩ := not_or.mp (mem_cons.not.mp hplus)
    rw [cons_append, decodeFrom, if_neg (fun h => hbyte h.1.symm),
      if_neg (fun h => hbyte' h.symm), ih _ hfront hfront', Option.map_map, length_cons,
      show index + 1 + front.length = index + (front.length + 1) by omega]
    rfl

theorem byteLength_append_singleton (before : List Char) (c : Char) :
    byteLength (before ++ [c]) = byteLength before + c.utf8Size := by
  simp [byteLength]

theorem decodeBehind_kept (hpercent : c ≠ '%') (hplus : c ≠ '+') (before cs : List Char) :
    decodeBehind before (c :: cs) =
      (decodeBehind (before ++ [c]) cs).map (String.utf8EncodeChar c ++ ·) := by
  have hval {d : Char} (hd : c ≠ d) : c.val.toNat ≠ d.val.toNat :=
    fun h => hd (Char.ext (UInt32.toNat_inj.mp h))
  have hp : percent ∉ String.utf8EncodeChar c :=
    ascii_notMem_utf8EncodeChar (by decide) (hval hpercent)
  have hq : plus ∉ String.utf8EncodeChar c :=
    ascii_notMem_utf8EncodeChar (by decide) (hval hplus)
  have hcons : encodeUtf8 (c :: cs) = String.utf8EncodeChar c ++ encodeUtf8 cs := rfl
  rw [decodeBehind, hcons, decodeFrom_kept _ _ hp hq, String.length_utf8EncodeChar, decodeBehind,
    byteLength_append_singleton, append_assoc, singleton_append]

theorem decodeBehind_plus (before cs : List Char) :
    decodeBehind before ('+' :: cs) = (decodeBehind (before ++ ['+']) cs).map ([space] ++ ·) := by
  have hcons : encodeUtf8 ('+' :: cs) = plus :: encodeUtf8 cs := rfl
  rw [decodeBehind, hcons, decodeFrom, if_neg (fun h => absurd h.1 (by decide)), if_pos rfl,
    decodeBehind, byteLength_append_singleton, append_assoc, singleton_append]
  rfl

/-- The slice behind a `%`. -/
def sliceBehind (cs : List Char) : Option (List Char) :=
  (dropBytes 2 cs).map fun rest => cs.take (cs.length - rest.length)

theorem sliceBytes_behind (before cs : List Char) :
    sliceBytes (byteLength before + 1) (byteLength before + 3) (before ++ '%' :: cs) =
      sliceBehind cs := by
  have hone : dropBytes 1 ('%' :: cs) = some cs := by
    cases cs <;> rfl
  have hthree : dropBytes 3 ('%' :: cs) = dropBytes 2 cs := rfl
  rw [sliceBytes, dropBytes_add, dropBytes_add, hone, hthree, sliceBehind]
  cases dropBytes 2 cs <;> rfl

theorem decodeBehind_percent (before cs : List Char) :
    decodeBehind before ('%' :: cs) =
      if 2 ≤ byteLength cs then
        match sliceBehind cs with
        | none => none
        | some hex =>
          match u8FromStrRadix16 hex with
          | some decoded =>
            (decodeFrom (before ++ '%' :: cs) (byteLength before + 1) 2 (encodeUtf8 cs)).map
              (decoded :: ·)
          | none => (decodeBehind (before ++ ['%']) cs).map ([percent] ++ ·)
      else (decodeBehind (before ++ ['%']) cs).map ([percent] ++ ·) := by
  have hcons : encodeUtf8 ('%' :: cs) = percent :: encodeUtf8 cs := rfl
  have hbehind : decodeBehind (before ++ ['%']) cs =
      decodeFrom (before ++ '%' :: cs) (byteLength before + 1) 0 (encodeUtf8 cs) := by
    rw [decodeBehind, byteLength_append_singleton, append_assoc, singleton_append]
    rfl
  rw [decodeBehind, hcons, decodeFrom, length_encodeUtf8, sliceBytes_behind, hbehind]
  simp only [true_and]
  split
  · rfl
  · rw [if_neg (by decide)]
    rfl

theorem hexOnto_some {value : Nat} (h : hexValue c = some n) (hlt : value * 16 + n < 256) :
    hexOnto value c = some (value * 16 + n) := by
  rw [hexOnto, h, Option.bind_some, if_pos hlt]

theorem hexOnto_none {value : Nat} (h : hexValue c = none) : hexOnto value c = none := by
  rw [hexOnto, h, Option.bind_none]

theorem u8FromStrRadix16_signed (b : Char) :
    u8FromStrRadix16 ['+', b] = (hexValue b).map UInt8.ofNat := by
  rw [u8FromStrRadix16]
  · simp only [foldlM_cons, foldlM_nil]
    cases hb : hexValue b with
    | none => rw [hexOnto_none hb]; rfl
    | some y =>
      have hy := (hexValue_range hb).2
      rw [hexOnto_some hb (by omega), Nat.zero_mul, Nat.zero_add]
      rfl
  · nofun

theorem u8FromStrRadix16_pair (ha : a ≠ '+') (b : Char) :
    u8FromStrRadix16 [a, b] = escapedByte a b := by
  rw [u8FromStrRadix16, escapedByte]
  · simp only [foldlM_cons, foldlM_nil]
    cases hx : hexValue a with
    | none => rw [hexOnto_none hx]; rfl
    | some x =>
      have hxlt := (hexValue_range hx).2
      rw [hexOnto_some hx (by omega), Nat.zero_mul, Nat.zero_add]
      cases hy : hexValue b with
      | none =>
        rw [Option.bind_eq_bind, Option.bind_some, hexOnto_none hy]
        rfl
      | some y =>
        have hylt := (hexValue_range hy).2
        rw [Option.bind_eq_bind, Option.bind_some, hexOnto_some hy (by omega)]
        rfl
  · nofun
  · nofun
  · nofun
  · intro digits heq
    exact ha (List.cons.inj heq).1

theorem decodable_cons_iff :
    Decodable (c :: cs) ↔ (c = '%' → ¬Misread cs) ∧ Decodable cs := by
  constructor
  · intro h
    refine ⟨?_, fun rest hrest => h rest (hrest.trans (suffix_cons c cs))⟩
    rintro rfl
    exact h cs (suffix_refl _)
  · rintro ⟨hfirst, hrest⟩ rest hsuf
    rcases suffix_cons_iff.mp hsuf with heq | hlater
    · obtain ⟨rfl, rfl⟩ := List.cons.inj heq
      exact hfirst rfl
    · exact hrest rest hlater

theorem decodable_cons_of_ne (hc : c ≠ '%') (cs : List Char) :
    Decodable (c :: cs) ↔ Decodable cs := by
  rw [decodable_cons_iff]
  exact ⟨And.right, fun h => ⟨fun heq => absurd heq hc, h⟩⟩

theorem misread_pair_iff (ha : a.utf8Size = 1) (hb : b.utf8Size = 1) (cs : List Char) :
    Misread (a :: b :: cs) ↔ a = '+' ∧ ∃ n, hexValue b = some n := by
  constructor
  · rintro (⟨_, hdigit⟩ | ⟨_, h⟩ | ⟨_, -, h⟩)
    · exact ⟨rfl, _, hdigit⟩
    · omega
    · omega
  · rintro ⟨rfl, n, hdigit⟩
    exact .signed cs hdigit

theorem literalBytes_kept (hpercent : c ≠ '%') (hplus : c ≠ '+') (cs : List Char) :
    literalBytes (c :: cs) = String.utf8EncodeChar c ++ literalBytes cs := by
  rw [literalBytes]
  · exact fun _ _ _ heq _ => hpercent heq
  · exact hplus

theorem literalBytes_escape (h : escapedByte a b = some byte) (cs : List Char) :
    literalBytes ('%' :: a :: b :: cs) = [byte] ++ literalBytes cs := by
  rw [literalBytes, h]
  rfl

theorem literalBytes_percent (h : ∀ a b rest, cs = a :: b :: rest → escapedByte a b = none) :
    literalBytes ('%' :: cs) = [percent] ++ literalBytes cs := by
  match cs with
  | [] => rfl
  | [a] => rfl
  | a :: b :: rest =>
    rw [literalBytes, h a b rest rfl]
    rfl

/-- What the decoder makes of some characters, beside what they say. -/
inductive Reads (cs : List Char) : Option (List UInt8) → Prop
  | panics (h : ¬Decodable cs) : Reads cs none
  | exact (h : Decodable cs) : Reads cs (some (literalBytes cs))
  | fewer {bytes : List UInt8} (h : ¬Decodable cs)
      (hcount : bytes.count percent < (literalBytes cs).count percent) : Reads cs (some bytes)

variable {rest : List Char} {out : Option (List UInt8)} {bytes : List UInt8}

theorem Reads.step (h : Reads rest out) (hliteral : literalBytes cs = front ++ literalBytes rest)
    (hdecodable : Decodable cs ↔ Decodable rest) : Reads cs (out.map (front ++ ·)) := by
  cases h with
  | panics h => exact .panics (fun hcs => h (hdecodable.mp hcs))
  | exact h =>
    rw [Option.map_some, ← hliteral]
    exact .exact (hdecodable.mpr h)
  | fewer h hcount =>
    refine .fewer (fun hcs => h (hdecodable.mp hcs)) ?_
    rw [hliteral, count_append, count_append]
    omega

/-- A sign and a digit are read as an escape: a `%` is lost. -/
theorem Reads.signed (h : Reads rest out) (hbyte : byte ≠ percent)
    (hliteral : literalBytes cs = percent :: front ++ literalBytes rest)
    (hdecodable : ¬Decodable cs) : Reads cs (out.map (byte :: ·)) := by
  cases h with
  | panics h => exact .panics hdecodable
  | exact h =>
    refine .fewer hdecodable ?_
    rw [hliteral, cons_append, count_cons_self, count_append,
      count_cons_of_ne hbyte]
    omega
  | fewer h hcount =>
    refine .fewer hdecodable ?_
    rw [hliteral, cons_append, count_cons_self, count_append,
      count_cons_of_ne hbyte]
    omega

theorem hexValue_plus : hexValue '+' = none := rfl

theorem hexValue_percent : hexValue '%' = none := rfl

theorem escapedByte_eq_some_iff :
    escapedByte a b = some byte ↔
      ∃ x y, hexValue a = some x ∧ hexValue b = some y ∧ byte = UInt8.ofNat (x * 16 + y) := by
  unfold escapedByte
  split
  · rename_i x y hx hy
    constructor
    · rintro ⟨⟩
      exact ⟨x, y, hx, hy, rfl⟩
    · rintro ⟨x', y', hx', hy', rfl⟩
      cases hx.symm.trans hx'
      cases hy.symm.trans hy'
      rfl
  · rename_i hnone
    constructor
    · nofun
    · rintro ⟨x, y, hx, hy, -⟩
      exact absurd hy (hnone x y hx)

theorem decodable_escape {x y : Nat} (ha : hexValue a = some x) (hb : hexValue b = some y)
    (cs : List Char) :
    Decodable ('%' :: a :: b :: cs) ↔ Decodable cs := by
  have hmisread : ¬Misread (a :: b :: cs) := by
    rw [misread_pair_iff (utf8Size_ascii (hexValue_range ha).1)
      (utf8Size_ascii (hexValue_range hb).1)]
    exact fun h => hexValue_ne ha hexValue_plus h.1
  rw [decodable_cons_iff, decodable_cons_of_ne (hexValue_ne ha hexValue_percent),
    decodable_cons_of_ne (hexValue_ne hb hexValue_percent)]
  exact ⟨And.right, fun h => ⟨fun _ => hmisread, h⟩⟩

theorem decodable_percent (h : ¬Misread cs) :
    Decodable ('%' :: cs) ↔ Decodable cs := by
  rw [decodable_cons_iff]
  exact ⟨And.right, fun hcs => ⟨fun _ => h, hcs⟩⟩

theorem not_decodable_percent (h : Misread cs) : ¬Decodable ('%' :: cs) :=
  fun hdecodable => hdecodable cs (suffix_refl _) h

theorem hexValue_wide (ha : a.utf8Size ≠ 1) : hexValue a = none := by
  cases hdigit : hexValue a with
  | none => rfl
  | some x => exact absurd (utf8Size_ascii (hexValue_range hdigit).1) ha

theorem u8FromStrRadix16_wide (ha : a.utf8Size ≠ 1) : u8FromStrRadix16 [a] = none := by
  rw [u8FromStrRadix16]
  · simp only [foldlM_cons]
    rw [hexOnto_none (hexValue_wide ha)]
    rfl
  · nofun
  · rintro ⟨⟩
    exact ha rfl
  · rintro ⟨⟩
    exact ha rfl
  · rintro _ ⟨⟩
    exact ha rfl

theorem escapedByte_none_of_wide (ha : a.utf8Size ≠ 1) (b : Char) :
    escapedByte a b = none := by
  rw [escapedByte, hexValue_wide ha]

theorem byteLength_pair (ha : a.utf8Size = 1) (hb : b.utf8Size = 1) :
    byteLength [a, b] = 2 := by
  simp [byteLength, ha, hb]

theorem sliceBehind_pair (ha : a.utf8Size = 1) (hb : b.utf8Size = 1) (cs : List Char) :
    sliceBehind (a :: b :: cs) = some [a, b] := by
  have hdrop : dropBytes 2 (a :: b :: cs) = some cs := by
    have h := dropBytes_add [a, b] cs 0
    rw [byteLength_pair ha hb] at h
    rw [show a :: b :: cs = [a, b] ++ cs from rfl, h]
    cases cs <;> rfl
  have hlen : (a :: b :: cs).length - cs.length = 2 := by
    simp only [length_cons]
    omega
  rw [sliceBehind, hdrop, Option.map_some, hlen]
  rfl

theorem decodeFrom_pair (ha : a.utf8Size = 1) (hb : b.utf8Size = 1) (before cs : List Char) :
    decodeFrom (before ++ '%' :: a :: b :: cs) (byteLength before + 1) 2
        (encodeUtf8 (a :: b :: cs)) = decodeBehind (before ++ ['%', a, b]) cs := by
  have hlen : (encodeUtf8 [a, b]).length = 2 := by rw [length_encodeUtf8, byteLength_pair ha hb]
  have hskip := decodeFrom_skip (before ++ '%' :: a :: b :: cs) (byteLength before + 1)
    (encodeUtf8 [a, b]) (encodeUtf8 cs)
  rw [hlen, ← encodeUtf8_append] at hskip
  have hbefore : byteLength (before ++ ['%', a, b]) = byteLength before + 1 + 2 := by
    have hpercent : '%'.utf8Size = 1 := rfl
    simp [byteLength, ha, hb, hpercent]
  rw [decodeBehind, hbefore, append_assoc]
  exact hskip

/-- A `%` before two characters of one byte each. -/
theorem reads_pair (ha : a.utf8Size = 1) (hb : b.utf8Size = 1) (before cs : List Char)
    (hkept : Reads (a :: b :: cs) (decodeBehind (before ++ ['%']) (a :: b :: cs)))
    (hbehind : Reads cs (decodeBehind (before ++ ['%', a, b]) cs)) :
    Reads ('%' :: a :: b :: cs) (decodeBehind before ('%' :: a :: b :: cs)) := by
  have hlong : 2 ≤ byteLength (a :: b :: cs) := by
    rw [byteLength_cons, byteLength_cons]
    omega
  rw [decodeBehind_percent, if_pos hlong, sliceBehind_pair ha hb, decodeFrom_pair ha hb]
  simp only
  by_cases hsign : a = '+'
  · subst hsign
    have hliteral : literalBytes ('%' :: '+' :: b :: cs) =
        [percent] ++ literalBytes ('+' :: b :: cs) := by
      apply literalBytes_percent
      rintro _ _ _ ⟨⟩
      rfl
    rw [u8FromStrRadix16_signed]
    cases hdigit : hexValue b with
    | some n =>
      obtain ⟨hascii, hlt⟩ := hexValue_range hdigit
      have hbyte : UInt8.ofNat n ≠ percent := by
        intro heq
        have hvalue := congrArg UInt8.toNat heq
        simp [percent] at hvalue
        omega
      have hspace : literalBytes ('+' :: b :: cs) = space :: literalBytes (b :: cs) := by
        rw [literalBytes]
      have hb' : literalBytes (b :: cs) = String.utf8EncodeChar b ++ literalBytes cs :=
        literalBytes_kept (hexValue_ne hdigit hexValue_percent)
          (hexValue_ne hdigit hexValue_plus) cs
      have hloss : literalBytes ('%' :: '+' :: b :: cs) =
          percent :: (space :: String.utf8EncodeChar b) ++ literalBytes cs := by
        rw [hliteral, hspace, hb']
        rfl
      exact hbehind.signed hbyte hloss (not_decodable_percent (.signed cs hdigit))
    | none =>
      refine hkept.step hliteral (decodable_percent ?_)
      rw [misread_pair_iff ha hb]
      rintro ⟨-, n, hn⟩
      rw [hdigit] at hn
      cases hn
  · have hmisread : ¬Misread (a :: b :: cs) := by
      rw [misread_pair_iff ha hb]
      exact fun h => hsign h.1
    rw [u8FromStrRadix16_pair hsign]
    cases hescape : escapedByte a b with
    | some byte =>
      obtain ⟨x, y, hx, hy, -⟩ := escapedByte_eq_some_iff.mp hescape
      exact hbehind.step (literalBytes_escape hescape cs) (decodable_escape hx hy cs)
    | none =>
      refine hkept.step (literalBytes_percent ?_) (decodable_percent hmisread)
      rintro _ _ _ ⟨⟩
      exact hescape

/-- A `%` that the decoder cannot take for the sign of an escape. -/
theorem reads_lone {before : List Char} (hdecode : decodeBehind before ('%' :: cs) =
      (decodeBehind (before ++ ['%']) cs).map ([percent] ++ ·))
    (hescape : ∀ a b rest, cs = a :: b :: rest → escapedByte a b = none) (hmisread : ¬Misread cs)
    (hbehind : Reads cs (decodeBehind (before ++ ['%']) cs)) :
    Reads ('%' :: cs) (decodeBehind before ('%' :: cs)) := by
  rw [hdecode]
  exact hbehind.step (literalBytes_percent hescape) (decodable_percent hmisread)

/-- A `%` before a character of more than one byte. -/
theorem reads_wide (ha : a.utf8Size ≠ 1) (before cs : List Char)
    (hkept : Reads (a :: cs) (decodeBehind (before ++ ['%']) (a :: cs))) :
    Reads ('%' :: a :: cs) (decodeBehind before ('%' :: a :: cs)) := by
  have hpos := a.utf8Size_pos
  have hlong : 2 ≤ byteLength (a :: cs) := by
    rw [byteLength_cons]
    omega
  by_cases htwo : a.utf8Size = 2
  · have hdrop : dropBytes 2 (a :: cs) = some cs := by
      have h := dropBytes_add [a] cs 0
      have hlen : byteLength [a] = 2 := by simp [byteLength, htwo]
      rw [hlen] at h
      rw [show a :: cs = [a] ++ cs from rfl, h]
      cases cs <;> rfl
    have hslice : sliceBehind (a :: cs) = some [a] := by
      have hlen : (a :: cs).length - cs.length = 1 := by
        rw [length_cons]
        omega
      rw [sliceBehind, hdrop, Option.map_some, hlen]
      rfl
    have hradix : u8FromStrRadix16 [a] = none := u8FromStrRadix16_wide ha
    apply reads_lone _ _ _ hkept
    · rw [decodeBehind_percent, if_pos hlong, hslice]
      simp only
      rw [hradix]
    · rintro _ b _ ⟨⟩
      exact escapedByte_none_of_wide ha b
    · rintro (⟨_, h⟩ | ⟨_, h⟩ | ⟨_, h, -⟩)
      · exact ha rfl
      · omega
      · omega
  · have hdrop : dropBytes 2 (a :: cs) = none := by
      rw [dropBytes, if_neg (by omega)]
    rw [decodeBehind_percent, if_pos hlong, sliceBehind, hdrop]
    exact .panics (not_decodable_percent (.wide cs (by omega)))

/-- A `%` before a character of one byte and a longer one. -/
theorem reads_cut (ha : a.utf8Size = 1) (hb : b.utf8Size ≠ 1) (before cs : List Char) :
    Reads ('%' :: a :: b :: cs) (decodeBehind before ('%' :: a :: b :: cs)) := by
  have hpos := b.utf8Size_pos
  have hlong : 2 ≤ byteLength (a :: b :: cs) := by
    rw [byteLength_cons, byteLength_cons]
    omega
  have hdrop : dropBytes 2 (a :: b :: cs) = none := by
    rw [dropBytes, if_pos (by omega), ha, dropBytes, if_neg (by omega)]
  rw [decodeBehind_percent, if_pos hlong, sliceBehind, hdrop]
  exact .panics (not_decodable_percent (.cut cs ha (by omega)))

theorem reads_decodeBehind (before cs : List Char) : Reads cs (decodeBehind before cs) := by
  match cs with
  | [] =>
    have hnone : decodeBehind before [] = some (literalBytes []) := rfl
    rw [hnone]
    refine .exact fun rest hsuf => ?_
    cases suffix_nil.mp hsuf
  | c :: cs =>
    have hrest := reads_decodeBehind (before ++ [c]) cs
    by_cases hpercent : c = '%'
    · subst hpercent
      match cs with
      | [] =>
        refine reads_lone rfl ?_ nofun hrest
        rintro _ _ _ ⟨⟩
      | [a] =>
        by_cases ha : a.utf8Size = 1
        · have hshort : ¬2 ≤ byteLength [a] := by simp [byteLength, ha]
          refine reads_lone ?_ ?_ ?_ hrest
          · rw [decodeBehind_percent, if_neg hshort]
          · rintro _ _ _ ⟨⟩
          · rintro (_ | ⟨_, hwide⟩)
            omega
        · exact reads_wide ha before [] hrest
      | a :: b :: rest =>
        by_cases ha : a.utf8Size = 1
        · by_cases hb : b.utf8Size = 1
          · exact reads_pair ha hb before rest hrest (reads_decodeBehind _ rest)
          · exact reads_cut ha hb before rest
        · exact reads_wide ha before _ hrest
    · by_cases hplus : c = '+'
      · subst hplus
        rw [decodeBehind_plus]
        exact hrest.step (by rw [literalBytes]; rfl) (decodable_cons_of_ne (by decide) cs)
      · rw [decodeBehind_kept hpercent hplus]
        exact hrest.step (literalBytes_kept hpercent hplus cs) (decodable_cons_of_ne hpercent cs)
  termination_by cs.length

theorem PercentEncoded.literalBytes (h : PercentEncoded bytes value) :
    literalBytes value = bytes := by
  induction h with
  | nil => rfl
  | escaped ha hb h ih =>
    rw [literalBytes_escape (escapedByte_eq_some_iff.mpr ⟨_, _, ha, hb, rfl⟩), ih]
    rfl
  | kept hascii hpercent hplus h ih =>
    rw [literalBytes_kept hpercent hplus, utf8EncodeChar_ascii hascii, ih]
    rfl

theorem PercentEncoded.decodable (h : PercentEncoded bytes value) :
    Decodable value := by
  induction h with
  | nil => exact fun rest hsuf => by cases suffix_nil.mp hsuf
  | escaped ha hb h ih => exact (decodable_escape ha hb _).mpr ih
  | kept hascii hpercent hplus h ih => exact (decodable_cons_of_ne hpercent _).mpr ih

theorem reads_value (value : List Char) : Reads value (decodeFrom value 0 0 (encodeUtf8 value)) :=
  reads_decodeBehind [] value

theorem percentDecode_decodable (h : Decodable value) :
    percentDecode value = some (fromUtf8Lossy (literalBytes value)) := by
  have hreads := reads_value value
  unfold percentDecode
  generalize decodeFrom value 0 0 (encodeUtf8 value) = out at hreads
  cases hreads with
  | panics hnot => exact absurd h hnot
  | exact _ => rfl
  | fewer hnot _ => exact absurd h hnot

/-- What is decoded of other values has fewer `%` than it should. -/
theorem percentDecode_undecodable {out : List Char} (h : ¬Decodable value)
    (hout : percentDecode value = some out) : out ≠ fromUtf8Lossy (literalBytes value) := by
  have hreads := reads_value value
  unfold percentDecode at hout
  generalize decodeFrom value 0 0 (encodeUtf8 value) = read at hreads hout
  cases hreads with
  | panics _ => cases hout
  | exact hdecodable => exact absurd hdecodable h
  | fewer _ hcount =>
    cases hout
    intro heq
    have hsigns := congrArg (List.count '%') heq
    rw [count_fromUtf8Lossy, count_fromUtf8Lossy] at hsigns
    omega

theorem unwrapCcrProxyUrl_proxied {url : List Char} (h : proxiedValue url = some value) :
    unwrapCcrProxyUrl url = percentDecode value := by
  rw [unwrapCcrProxyUrl, h]

/-- A URL is unwrapped as promised exactly when nothing that stands behind a `%`
of its value is misread. -/
theorem unwraps_iff (url : List Char) :
    Unwraps url ↔ ∀ value, proxiedValue url = some value → Decodable value := by
  constructor
  · intro h value hvalue
    by_contra hnot
    obtain ⟨out, hout⟩ := Option.ne_none_iff_exists'.mp h.returns
    have hliteral := h.literal value out hvalue hout
    rw [unwrapCcrProxyUrl_proxied hvalue] at hout
    exact percentDecode_undecodable hnot hout hliteral
  · intro h
    refine ⟨?_, ?_, ?_⟩
    · cases hvalue : proxiedValue url with
      | none =>
        rw [unwrapCcrProxyUrl, hvalue]
        nofun
      | some value =>
        rw [unwrapCcrProxyUrl_proxied hvalue, percentDecode_decodable (h value hvalue)]
        nofun
    · intro value target hvalue hencoded
      rw [unwrapCcrProxyUrl_proxied hvalue, percentDecode_decodable hencoded.decodable,
        hencoded.literalBytes]
      exact congrArg some (fromUtf8Lossy_encoded target)
    · intro value out hvalue hout
      rw [unwrapCcrProxyUrl_proxied hvalue, percentDecode_decodable (h value hvalue)] at hout
      exact (Option.some.inj hout).symm

/-- A `%` before a character of three bytes panics, and one before a sign and a
digit is lost. -/
theorem proxy_values_not_unwrapped :
    ¬Unwraps "https://a.example/v2/ccr-sessions/1?mcp_url=%€".toList ∧
      ¬Unwraps "https://a.example/v2/ccr-sessions/1?mcp_url=%+5".toList := by
  constructor
  · intro h
    exact h.returns (by decide +kernel)
  · intro h
    have hliteral := h.literal "%+5".toList [Char.ofNat 5] (by decide +kernel) (by decide +kernel)
    exact absurd hliteral (by decide +kernel)

end DbClinic.Mcp
