import DbClinic.Gateway.PyJson
import DbClinic.Runtime.Text

/-!
What `dumps` writes for a value of JSON, `loads` reads back; a string that `loads`
returns is shorter than its text.
-/

namespace DbClinic.PyJson

open DbClinic.Runtime List

def IsScalar (c : CodePoint) : Prop := ¬(0xd800 ≤ c.val ∧ c.val ≤ 0xdfff)

instance (c : CodePoint) : Decidable (IsScalar c) := inferInstanceAs (Decidable (¬_))

/-- The text of an integer without leading zeros. -/
def IsWhole (whole : List Char) : Prop :=
  ∃ n, whole = Nat.toDigits 10 n ∨ whole = '-' :: Nat.toDigits 10 n

def AllDigits (digits : List Char) : Prop := digits ≠ [] ∧ ∀ c ∈ digits, c.isDigit = true

def IsFrac (frac : List Char) : Prop := frac = [] ∨ ∃ digits, AllDigits digits ∧ frac = '.' :: digits

def IsExp (exp : List Char) : Prop :=
  exp = [] ∨ ∃ sign digits, (sign = [] ∨ sign = ['+'] ∨ sign = ['-']) ∧ AllDigits digits ∧
    exp = 'e' :: (sign ++ digits)

/-- A finite float's `repr`: a number of JSON with a fraction or an exponent, of
which `float` makes the same float. -/
def IsFloatRepr (float : List Char → List Char) (repr : List Char) : Prop :=
  float repr = repr ∧ ∃ whole frac exp, IsWhole whole ∧ IsFrac frac ∧ IsExp exp ∧
    frac ++ exp ≠ [] ∧ repr = whole ++ (frac ++ exp)

mutual

/-- The values of JSON: strings of characters, finite floats, distinct keys. -/
def Representable (float : List Char → List Char) : Json → Prop
  | .none => True
  | .bool _ => True
  | .int _ => True
  | .float repr => IsFloatRepr float repr
  | .str text => ∀ c ∈ text, IsScalar c
  | .list items => RepresentableItems float items
  | .dict entries => (entries.map Prod.fst).Nodup ∧ RepresentableEntries float entries

def RepresentableItems (float : List Char → List Char) : List Json → Prop
  | [] => True
  | item :: rest => Representable float item ∧ RepresentableItems float rest

def RepresentableEntries (float : List Char → List Char) :
    List (List CodePoint × Json) → Prop
  | [] => True
  | (key, value) :: rest =>
    (∀ c ∈ key, IsScalar c) ∧ Representable float value ∧ RepresentableEntries float rest

end

theorem ord_val (c : Char) : (ord c).val = c.toNat := by
  have hvalid := c.valid
  simp only [UInt32.isValidChar, Nat.isValidChar] at hvalid
  have hlt : c.toNat < 0x110000 := by
    change c.val.toNat < _
    omega
  exact Nat.mod_eq_of_lt hlt

variable {rest exp whole frac : List Char} {n : Nat}

theorem toNat_ofNat (h : n.isValidChar) : (Char.ofNat n).toNat = n := by
  unfold Char.ofNat
  rw [dif_pos h]
  rfl

theorem ord_ofNat (h : n.isValidChar) (hn : n < 0x110000) :
    ord (Char.ofNat n) = ⟨n, hn⟩ := by
  apply Fin.ext
  rw [ord_val, toNat_ofNat h]

def hexDigits (n : Nat) : List Char :=
  [12, 8, 4, 0].map fun shift => JsonValue.hexDigit ((n >>> shift) % 16)

theorem unicodeEscape_append (n : Nat) (rest : List Char) :
    unicodeEscape n ++ rest = '\\' :: 'u' :: (hexDigits n ++ rest) := rfl

theorem scanHex_digits (h : n < 0x10000) (rest : List Char) :
    scanHex 4 0 (hexDigits n ++ rest) = some (n, rest) := by
  have hdigit (shift : Nat) :
      Parser.hexValue (JsonValue.hexDigit ((n >>> shift) % 16)) = some ((n >>> shift) % 16) :=
    Parser.hexValue_hexDigit _ (Nat.mod_lt _ (by decide))
  have hvalue : (((0 * 16 + (n >>> 12) % 16) * 16 + (n >>> 8) % 16) * 16 +
      (n >>> 4) % 16) * 16 + (n >>> 0) % 16 = n := by
    simp only [Nat.shiftRight_eq_div_pow]
    omega
  simp only [hexDigits, map_cons, map_nil, cons_append, nil_append, scanHex,
    hdigit, hvalue]

theorem scanUnicode_low (h : n < 0x10000) (hlow : ¬(0xd800 ≤ n ∧ n ≤ 0xdbff)) (rest : List Char) :
    scanUnicode (hexDigits n ++ rest) = some (Fin.ofNat _ n, rest) := by
  unfold scanUnicode
  rw [scanHex_digits h]
  dsimp only
  rw [if_neg hlow]

theorem scanUnicode_pair {high low : Nat} (hhigh : 0xd800 ≤ high ∧ high ≤ 0xdbff)
    (hlow : 0xdc00 ≤ low ∧ low ≤ 0xdfff) (rest : List Char) :
    scanUnicode (hexDigits high ++ (unicodeEscape low ++ rest)) =
      some (Fin.ofNat _ (0x10000 + (high - 0xd800) * 0x400 + (low - 0xdc00)), rest) := by
  have hlow16 : low < 0x10000 := by omega
  unfold scanUnicode
  rw [scanHex_digits (by omega), unicodeEscape_append]
  dsimp only
  rw [if_pos hhigh]
  simp only [scanHex_digits hlow16]
  rw [if_pos hlow]

section Strings

variable {c : CodePoint} (fuel : Nat) (text : List CodePoint) (rest : List Char)

theorem scanString_escape {escaped : CodePoint} {cs : List Char}
    (h : scanEscape cs = some (escaped, rest)) :
    scanString (fuel + 1) text ('\\' :: cs) = scanString fuel (escaped :: text) rest := by
  rw [scanString, if_neg (by decide), if_pos rfl, h]

theorem scanEscape_u : scanEscape ('u' :: rest) = scanUnicode rest := rfl

theorem scanString_escapeCodePoint (hc : IsScalar c) :
    scanString (fuel + 1) text (escapeCodePoint c ++ rest) =
      scanString fuel (c :: text) rest := by
  unfold escapeCodePoint
  split
  · subst c
    exact scanString_escape fuel text rest rfl
  rename_i hquote
  split
  · subst c
    exact scanString_escape fuel text rest rfl
  rename_i hslash
  split
  · subst c
    exact scanString_escape fuel text rest rfl
  split
  · subst c
    exact scanString_escape fuel text rest rfl
  split
  · subst c
    exact scanString_escape fuel text rest rfl
  split
  · rename_i hval
    have hfeed : c = 12 := Fin.ext hval
    subst hfeed
    exact scanString_escape fuel text rest rfl
  split
  · rename_i hval
    have hback : c = 8 := Fin.ext hval
    subst hback
    exact scanString_escape fuel text rest rfl
  split
  · rename_i hplain
    have hvalid : c.val.isValidChar := by
      left
      omega
    have hord : ord (Char.ofNat c.val) = c := ord_ofNat hvalid c.isLt
    have hnat : (Char.ofNat c.val).toNat = c.val := toNat_ofNat hvalid
    have hnotQuote : Char.ofNat c.val ≠ '"' := fun h => hquote (by rw [← hord, h])
    have hnotSlash : Char.ofNat c.val ≠ '\\' := fun h => hslash (by rw [← hord, h])
    rw [singleton_append, scanString, if_neg hnotQuote, if_neg hnotSlash,
      if_neg (by rw [hnat]; omega), hord]
  split
  · rename_i hlow
    have hfirst : ¬(0xd800 ≤ c.val ∧ c.val ≤ 0xdbff) := by
      unfold IsScalar at hc
      omega
    have hescape := scanUnicode_low hlow hfirst rest
    rw [Fin.ofNat_val_eq_self] at hescape
    rw [← scanEscape_u] at hescape
    rw [unicodeEscape_append]
    exact scanString_escape fuel text rest hescape
  · rename_i hlow
    have hlt := c.isLt
    have hhigh : 0xd800 ≤ 0xd800 + (c.val - 0x10000) / 0x400 ∧
        0xd800 + (c.val - 0x10000) / 0x400 ≤ 0xdbff := by omega
    have hsecond : 0xdc00 ≤ 0xdc00 + (c.val - 0x10000) % 0x400 ∧
        0xdc00 + (c.val - 0x10000) % 0x400 ≤ 0xdfff := by omega
    have hescape := scanUnicode_pair hhigh hsecond rest
    have hsum : 0x10000 + (0xd800 + (c.val - 0x10000) / 0x400 - 0xd800) * 0x400 +
        (0xdc00 + (c.val - 0x10000) % 0x400 - 0xdc00) = c.val := by omega
    rw [hsum, Fin.ofNat_val_eq_self] at hescape
    rw [← scanEscape_u] at hescape
    rw [append_assoc, unicodeEscape_append]
    exact scanString_escape fuel text rest hescape

end Strings

theorem escapeCodePoint_ne_nil (c : CodePoint) : escapeCodePoint c ≠ [] := by
  unfold escapeCodePoint unicodeEscape
  repeat' split
  all_goals simp

theorem length_le_flatMap_escape (text : List CodePoint) :
    text.length ≤ (text.flatMap escapeCodePoint).length := by
  induction text with
  | nil => exact Nat.le_refl _
  | cons c text ih =>
    have hc := length_pos_iff.mpr (escapeCodePoint_ne_nil c)
    rw [flatMap_cons, length_append, length_cons]
    omega

variable {text : List CodePoint} {c : Char}

theorem scanString_flatMap (h : ∀ c ∈ text, IsScalar c) {fuel : Nat} (hfuel : text.length < fuel)
    (before : List CodePoint) (rest : List Char) :
    scanString fuel before (text.flatMap escapeCodePoint ++ '"' :: rest) =
      some (before.reverse ++ text, rest) := by
  induction text generalizing fuel before with
  | nil =>
    obtain ⟨fuel, rfl⟩ : ∃ k, fuel = k + 1 := ⟨fuel - 1, by simp at hfuel; omega⟩
    simp [scanString]
  | cons c text ih =>
    obtain ⟨fuel, rfl⟩ : ∃ k, fuel = k + 1 := ⟨fuel - 1, by simp at hfuel; omega⟩
    have hlt : text.length < fuel := by
      simp only [length_cons] at hfuel
      omega
    rw [flatMap_cons, append_assoc, scanString_escapeCodePoint _ _ _
      (h c mem_cons_self), ih (fun d hd => h d (mem_cons_of_mem c hd)) hlt]
    simp

theorem scanString_dumpsStr (h : ∀ c ∈ text, IsScalar c) (rest : List Char) :
    ∃ body, dumpsStr text ++ rest = '"' :: body ∧
      scanString (body.length + 1) [] body = some (text, rest) := by
  refine ⟨text.flatMap escapeCodePoint ++ '"' :: rest, by simp [dumpsStr], ?_⟩
  have hlength := length_le_flatMap_escape text
  have hfuel : text.length < (text.flatMap escapeCodePoint ++ '"' :: rest).length + 1 := by
    simp only [length_append, length_cons]
    omega
  exact scanString_flatMap h hfuel [] rest

/-- Nothing that continues a number follows. -/
def StopsNumber (rest : List Char) : Prop :=
  ∀ c ∈ rest.head?, c.isDigit = false ∧ c ≠ '.' ∧ c ≠ 'e' ∧ c ≠ 'E'

theorem stopsNumber_cons (h : c.isDigit = false ∧ c ≠ '.' ∧ c ≠ 'e' ∧ c ≠ 'E') (rest : List Char) :
    StopsNumber (c :: rest) := by
  intro d hd
  cases hd
  exact h

theorem StopsNumber.ends (h : StopsNumber rest) : Parser.EndsNumber rest :=
  fun c hc => (h c hc).1

theorem scanDigits_append {digits : List Char} (h : ∀ c ∈ digits, c.isDigit = true)
    (hrest : Parser.EndsNumber rest) : scanDigits (digits ++ rest) = (digits, rest) := by
  have hstop : rest.takeWhile Char.isDigit = [] ∧ rest.dropWhile Char.isDigit = rest := by
    cases rest with
    | nil => exact ⟨rfl, rfl⟩
    | cons c rest =>
      have hc : c.isDigit = false := hrest c rfl
      simp [hc]
  unfold scanDigits
  rw [span_eq_takeWhile_dropWhile, takeWhile_append_of_pos h,
    dropWhile_append_of_pos h, hstop.1, hstop.2, append_nil]

theorem toDigits_head (hn : 0 < n) :
    ∃ d ds, Nat.toDigits 10 n = d :: ds ∧ d ≠ '0' := by
  induction n using Nat.strong_induction_on with
  | _ n ih =>
    rcases Nat.lt_or_ge n 10 with hlt | hge
    · refine ⟨n.digitChar, [], Nat.toDigits_of_lt_base hlt, ?_⟩
      have hall : ∀ n < 10, 0 < n → n.digitChar ≠ '0' := by decide
      exact hall n hlt hn
    · obtain ⟨d, ds, hdigits, hd⟩ := ih (n / 10) (by omega) (by omega)
      rw [Nat.toDigits_of_base_le (by decide) hge, hdigits]
      exact ⟨d, _, rfl, hd⟩

theorem not_minus_of_isDigit (h : c.isDigit = true) : c ≠ '-' := by
  rintro rfl
  cases h

theorem scanInt_toDigits (n : Nat) (hrest : Parser.EndsNumber rest) :
    scanInt (Nat.toDigits 10 n ++ rest) = some (Nat.toDigits 10 n, rest) ∧
      scanInt ('-' :: Nat.toDigits 10 n ++ rest) = some ('-' :: Nat.toDigits 10 n, rest) := by
  rcases Nat.eq_zero_or_pos n with rfl | hn
  · rw [Nat.toDigits_zero]
    exact ⟨rfl, rfl⟩
  · obtain ⟨d, ds, hdigits, hd⟩ := toDigits_head hn
    have hscan : scanDigits (d :: ds ++ rest) = (d :: ds, rest) := by
      rw [← hdigits]
      exact scanDigits_append (fun c hc => Parser.isDigit_toDigits hc) hrest
    have hdigit : d.isDigit = true := Parser.isDigit_toDigits (hdigits ▸ mem_cons_self)
    have hminus := not_minus_of_isDigit hdigit
    rw [cons_append] at hscan
    rw [hdigits, cons_append, cons_append, cons_append]
    constructor
    · unfold scanInt
      split
      · rename_i heq
        exact absurd (List.cons.inj heq).1 hminus
      · rename_i heq
        exact absurd (List.cons.inj heq).1 hd
      · rename_i heq
        exact absurd (List.cons.inj heq).1 hminus
      · rw [hscan]
    · unfold scanInt
      split
      · rename_i heq
        cases heq
        exact absurd rfl hd
      · rename_i heq
        cases heq
      · rename_i heq
        cases heq
        rw [hscan]
      · rename_i hnot
        exact absurd rfl (hnot _)

theorem scanInt_whole (h : IsWhole whole) (hrest : Parser.EndsNumber rest) :
    scanInt (whole ++ rest) = some (whole, rest) := by
  obtain ⟨n, rfl | rfl⟩ := h
  · exact (scanInt_toDigits n hrest).1
  · exact (scanInt_toDigits n hrest).2

theorem scanFrac_append (h : IsFrac frac) (hrest : ∀ c ∈ rest.head?, c.isDigit = false ∧ c ≠ '.') :
    scanFrac (frac ++ rest) = (frac, rest) := by
  rcases h with rfl | ⟨digits, ⟨hne, hall⟩, rfl⟩
  · unfold scanFrac
    split
    · rename_i heq
      rw [nil_append] at heq
      rw [heq] at hrest
      exact absurd rfl (hrest '.' rfl).2
    · rfl
  · obtain ⟨d, ds, rfl⟩ := exists_cons_of_ne_nil hne
    have hscan := scanDigits_append hall fun c hc => (hrest c hc).1
    change scanFrac ('.' :: (d :: ds ++ rest)) = _
    rw [scanFrac, hscan]

theorem scanExp_append (h : IsExp exp) (hrest : StopsNumber rest) :
    scanExp (exp ++ rest) = (exp, rest) := by
  rcases h with rfl | ⟨sign, digits, hsign, ⟨hne, hall⟩, rfl⟩
  · cases rest with
    | nil => rfl
    | cons c rest =>
      obtain ⟨-, -, he, hE⟩ := hrest c rfl
      have hnot : ¬(c = 'e' ∨ c = 'E') := by
        rintro (h | h)
        · exact he h
        · exact hE h
      unfold scanExp
      dsimp only [nil_append]
      rw [if_neg hnot]
  · obtain ⟨d, ds, rfl⟩ := exists_cons_of_ne_nil hne
    have hscan := scanDigits_append hall hrest.ends
    have hd : d.isDigit = true := hall d mem_cons_self
    rcases hsign with rfl | rfl | rfl
    · have hnotSign : ¬(d = '+' ∨ d = '-') := by
        rintro (rfl | rfl) <;> cases hd
      have htext : 'e' :: ([] ++ d :: ds) ++ rest = 'e' :: d :: (ds ++ rest) := rfl
      rw [cons_append] at hscan
      rw [htext, scanExp, if_pos (.inl rfl), if_neg hnotSign, hscan]
      rfl
    · have htext : 'e' :: (['+'] ++ d :: ds) ++ rest = 'e' :: '+' :: (d :: ds ++ rest) := rfl
      rw [htext, scanExp, if_pos (.inl rfl), if_pos (.inl rfl), hscan]
      rfl
    · have htext : 'e' :: (['-'] ++ d :: ds) ++ rest = 'e' :: '-' :: (d :: ds ++ rest) := rfl
      rw [htext, scanExp, if_pos (.inl rfl), if_pos (.inr rfl), hscan]
      rfl

theorem head_exp (h : IsExp exp) (hrest : StopsNumber rest) :
    ∀ c ∈ (exp ++ rest).head?, c.isDigit = false ∧ c ≠ '.' := by
  rcases h with rfl | ⟨sign, digits, -, -, rfl⟩
  · exact fun c hc => ⟨(hrest c hc).1, (hrest c hc).2.1⟩
  · intro c hc
    cases hc
    decide

theorem head_frac (hfrac : IsFrac frac) (h : IsExp exp) (hrest : StopsNumber rest) :
    Parser.EndsNumber (frac ++ (exp ++ rest)) := by
  rcases hfrac with rfl | ⟨digits, -, rfl⟩
  · exact fun c hc => (head_exp h hrest c hc).1
  · intro c hc
    cases hc
    decide

theorem scanNumberText_append (hwhole : IsWhole whole) (hfrac : IsFrac frac) (hexp : IsExp exp)
    (hrest : StopsNumber rest) :
    scanNumberText (whole ++ (frac ++ exp) ++ rest) = some (whole, frac ++ exp, rest) := by
  have htext : whole ++ (frac ++ exp) ++ rest = whole ++ (frac ++ (exp ++ rest)) := by
    simp only [append_assoc]
  unfold scanNumberText
  rw [htext, scanInt_whole hwhole (head_frac hfrac hexp hrest)]
  dsimp only
  rw [scanFrac_append hfrac (head_exp hexp hrest)]
  dsimp only
  rw [scanExp_append hexp hrest]

theorem intValue_render (value : Int) : IsWhole (JsonValue.renderNumber value) ∧
    intValue (JsonValue.renderNumber value) = value := by
  rw [Parser.renderNumber_eq]
  split
  · rename_i hsign
    refine ⟨⟨value.toNat, .inl rfl⟩, ?_⟩
    obtain ⟨d, ds, hdigits⟩ := exists_cons_of_ne_nil
      (Nat.toDigits_ne_nil : Nat.toDigits 10 value.toNat ≠ [])
    have hdigit : d.isDigit = true := Parser.isDigit_toDigits (hdigits ▸ mem_cons_self)
    have hvalue : intValue (d :: ds) = Parser.digitsValue (d :: ds) := by
      unfold intValue
      split
      · rename_i heq
        cases heq
        cases hdigit
      · rfl
    rw [hdigits, hvalue, ← hdigits, Parser.digitsValue_toDigits, Int.toNat_of_nonneg hsign]
  · rename_i hsign
    refine ⟨⟨(-value).toNat, .inr rfl⟩, ?_⟩
    rw [intValue, Parser.digitsValue_toDigits]
    omega

def StartsNumber (cs : List Char) : Prop :=
  ∃ c rest, cs = c :: rest ∧ (c.isDigit = true ∨ c = '-' ∧ ∃ d more, rest = d :: more ∧
    d.isDigit = true)

theorem startsNumber_whole (h : IsWhole whole) (rest : List Char) :
    StartsNumber (whole ++ rest) := by
  obtain ⟨n, hwhole⟩ := h
  obtain ⟨d, ds, hdigits⟩ := exists_cons_of_ne_nil
    (Nat.toDigits_ne_nil : Nat.toDigits 10 n ≠ [])
  have hdigit : d.isDigit = true := Parser.isDigit_toDigits (hdigits ▸ mem_cons_self)
  rcases hwhole with rfl | rfl
  · rw [hdigits]
    exact ⟨d, _, rfl, .inl hdigit⟩
  · rw [hdigits]
    exact ⟨'-', _, rfl, .inr ⟨rfl, d, _, rfl, hdigit⟩⟩

section Values

variable (float : List Char → List Char)

variable {cs : List Char} {value item : Json} {fuel : Nat} {text : List CodePoint} {c : Char}

variable {literal : String} {α : Type} {key : List CodePoint}
variable {entries : List (List CodePoint × α)}

theorem scanLiteral_none {k : Char} {ks : List Char} (h : literal.toList = k :: ks) (hne : k ≠ c) :
    scanLiteral literal value (c :: cs) = none := by
  unfold scanLiteral
  rw [h, if_neg]
  simp [List.isPrefixOf, hne]

theorem scanOnce_number (h : StartsNumber cs) (fuel : Nat) :
    scanOnce float (fuel + 1) cs = scanNumber float cs := by
  obtain ⟨c, rest, rfl, hc⟩ := h
  have hnot : ∀ k ∈ ['"', '\x7b', '[', 'n', 't', 'f', 'N', 'I'], k ≠ c := by
    rintro k hk rfl
    rcases hc with hc | ⟨rfl, -⟩
    · have hall : ∀ k ∈ ['"', '\x7b', '[', 'n', 't', 'f', 'N', 'I'], k.isDigit = false :=
        forall_mem_of_all (by decide)
      rw [hall k hk] at hc
      cases hc
    · revert hk
      decide
  have hminus : scanLiteral "-Infinity" (.float "-inf".toList) (c :: rest) = none := by
    rcases hc with hc | ⟨rfl, d, more, rfl, hd⟩
    · exact scanLiteral_none rfl (fun h => not_minus_of_isDigit hc h.symm)
    · have hI : 'I' ≠ d := by
        rintro rfl
        cases hd
      unfold scanLiteral
      rw [if_neg]
      simp [List.isPrefixOf, hI]
  unfold scanOnce
  split
  · rename_i heq
    cases heq
    exact absurd rfl (hnot '"' (by decide))
  · rename_i heq
    cases heq
    exact absurd rfl (hnot '\x7b' (by decide))
  · rename_i heq
    cases heq
    exact absurd rfl (hnot '[' (by decide))
  · rw [scanLiteral_none rfl (hnot 'n' (by decide)), scanLiteral_none rfl (hnot 't' (by decide)),
      scanLiteral_none rfl (hnot 'f' (by decide)), scanLiteral_none rfl (hnot 'N' (by decide)),
      scanLiteral_none rfl (hnot 'I' (by decide)), hminus]
    rfl

/-- A character that begins what is written for a value. -/
def StartsText (c : Char) : Prop :=
  c ≠ ' ' ∧ c ≠ '\t' ∧ c ≠ '\n' ∧ c ≠ '\r' ∧ c ≠ ']' ∧ c ≠ Char.ofNat 0xfeff

instance (c : Char) : Decidable (StartsText c) := inferInstanceAs (Decidable (_ ∧ _))

theorem startsText_of_startsNumber (h : StartsNumber cs) :
    ∃ c rest, cs = c :: rest ∧ StartsText c := by
  obtain ⟨c, rest, hcs, hc⟩ := h
  refine ⟨c, rest, hcs, ?_⟩
  rcases hc with hc | ⟨rfl, -⟩
  · refine ⟨?_, ?_, ?_, ?_, ?_, ?_⟩ <;> (rintro rfl; cases hc)
  · decide

theorem dumps_head (h : Representable float value) :
    ∃ c cs, dumps value = c :: cs ∧ StartsText c := by
  cases value with
  | none => exact ⟨'n', _, rfl, by decide⟩
  | bool value => cases value <;> exact ⟨_, _, rfl, by decide⟩
  | int value =>
    have hstarts := startsNumber_whole (intValue_render value).1 []
    rw [append_nil] at hstarts
    exact startsText_of_startsNumber hstarts
  | float repr =>
    obtain ⟨-, whole, frac, exp, hwhole, -, -, -, rfl⟩ := h
    exact startsText_of_startsNumber (startsNumber_whole hwhole _)
  | str text => exact ⟨'"', _, rfl, by decide⟩
  | list items => exact ⟨'[', _, rfl, by decide⟩
  | dict entries => exact ⟨'\x7b', _, rfl, by decide⟩

theorem skipWs_cons (h : StartsText c) (rest : List Char) :
    skipWs (c :: rest) = c :: rest := by
  obtain ⟨hblank, htab, hline, hreturn, -⟩ := h
  unfold skipWs
  rw [dropWhile_cons_of_neg]
  simp [hblank, htab, hline, hreturn]

theorem skipWs_blank (cs : List Char) : skipWs (' ' :: cs) = skipWs cs := rfl

theorem setItem_new (h : key ∉ entries.map Prod.fst) (value : α) :
    setItem key value entries = entries ++ [(key, value)] := by
  induction entries with
  | nil => rfl
  | cons e rest ih =>
    obtain ⟨k, v⟩ := e
    rw [map_cons, mem_cons, not_or] at h
    obtain ⟨hk, hrest⟩ := h
    rw [setItem, if_neg fun heq => hk heq.symm, ih hrest, cons_append]

theorem not_mem_of_nodup {before : List (List CodePoint × α)} {value : α}
    (h : ((before ++ (key, value) :: entries).map Prod.fst).Nodup) : key ∉ before.map Prod.fst := by
  rw [map_append, map_cons, nodup_append] at h
  exact fun hmem => h.2.2 key hmem key mem_cons_self rfl

theorem scanItems_last
    (h : scanOnce float fuel cs = some (item, ']' :: rest)) (before : List Json) :
    scanItems float (fuel + 1) before cs = some (.list (before ++ [item]), rest) := by
  rw [scanItems, h]
  rfl

theorem scanItems_more (h : scanOnce float fuel cs = some (item, ',' :: rest))
    (before : List Json) :
    scanItems float (fuel + 1) before cs =
      scanItems float fuel (before ++ [item]) (skipWs rest) := by
  rw [scanItems, h]
  rfl

section Entries

variable {fuel : Nat} {key : List CodePoint} {c : Char} {cs rest : List Char} {value : Json}

theorem scanEntries_last (hkey : ∀ c ∈ key, IsScalar c) (hc : StartsText c)
    (h : scanOnce float fuel (c :: cs) = some (value, '\x7d' :: rest))
    (before : List (List CodePoint × Json)) :
    scanEntries float (fuel + 1) before (dumpsStr key ++ ':' :: ' ' :: c :: cs) =
      some (.dict (setItem key value before), rest) := by
  obtain ⟨body, htext, hscan⟩ := scanString_dumpsStr hkey (':' :: ' ' :: c :: cs)
  have hcolon : StartsText ':' := by decide
  have hclose : StartsText '\x7d' := by decide
  rw [htext, scanEntries]
  simp only [hscan, skipWs_cons hcolon, skipWs_blank, skipWs_cons hc, h, skipWs_cons hclose]

theorem scanEntries_more (hkey : ∀ c ∈ key, IsScalar c) (hc : StartsText c)
    (h : scanOnce float fuel (c :: cs) = some (value, ',' :: rest))
    (before : List (List CodePoint × Json)) :
    scanEntries float (fuel + 1) before (dumpsStr key ++ ':' :: ' ' :: c :: cs) =
      scanEntries float fuel (setItem key value before) (skipWs rest) := by
  obtain ⟨body, htext, hscan⟩ := scanString_dumpsStr hkey (':' :: ' ' :: c :: cs)
  have hcolon : StartsText ':' := by decide
  have hcomma : StartsText ',' := by decide
  rw [htext, scanEntries]
  simp only [hscan, skipWs_cons hcolon, skipWs_blank, skipWs_cons hc, h, skipWs_cons hcomma]

end Entries

theorem dumpsItems_cons (item next : Json) (rest : List Json) :
    dumpsItems (item :: next :: rest) = dumps item ++ ',' :: ' ' :: dumpsItems (next :: rest) := by
  rw [dumpsItems]
  exact cons_ne_nil _ _

theorem dumpsEntries_cons (e next : List CodePoint × Json) (rest : List (List CodePoint × Json)) :
    dumpsEntries (e :: next :: rest) = dumpsStr e.1 ++ ':' :: ' ' :: dumps e.2 ++
      ',' :: ' ' :: dumpsEntries (next :: rest) := by
  obtain ⟨key, value⟩ := e
  rw [dumpsEntries]
  exact cons_ne_nil _ _

theorem dumpsItems_head (rest : List Json) (h : dumps item = c :: cs) :
    ∃ more, dumpsItems (item :: rest) = c :: more := by
  cases rest with
  | nil => exact ⟨cs, h⟩
  | cons next rest =>
    rw [dumpsItems_cons, h]
    exact ⟨_, rfl⟩

theorem dumpsEntries_head (e : List CodePoint × Json) (rest : List (List CodePoint × Json)) :
    ∃ more, dumpsEntries (e :: rest) = '"' :: more := by
  obtain ⟨key, value⟩ := e
  cases rest with
  | nil => exact ⟨_, rfl⟩
  | cons next rest =>
    rw [dumpsEntries_cons]
    exact ⟨_, rfl⟩

theorem scanOnce_list (fuel : Nat) (hc : StartsText c) (cs : List Char) :
    scanOnce float (fuel + 1) ('[' :: c :: cs) = scanItems float fuel [] (c :: cs) := by
  have hskip := skipWs_cons hc cs
  obtain ⟨-, -, -, -, hclose, -⟩ := hc
  rw [scanOnce]
  split
  · rename_i heq
    rw [hskip] at heq
    exact absurd (List.cons.inj heq).1 hclose
  · rw [hskip]

theorem scanOnce_dict (fuel : Nat) (cs : List Char) :
    scanOnce float (fuel + 1) ('\x7b' :: '"' :: cs) = scanEntries float fuel [] ('"' :: cs) := rfl

theorem scanOnce_str (h : ∀ c ∈ text, IsScalar c) (fuel : Nat) (rest : List Char) :
    scanOnce float (fuel + 1) (dumpsStr text ++ rest) = some (.str text, rest) := by
  obtain ⟨body, htext, hscan⟩ := scanString_dumpsStr h rest
  rw [htext, scanOnce, hscan]
  rfl

theorem scanNumber_int (value : Int) (hrest : StopsNumber rest) :
    scanNumber float (JsonValue.renderNumber value ++ rest) = some (.int value, rest) := by
  have hvalue := intValue_render value
  have hscan := scanNumberText_append hvalue.1 (.inl rfl) (.inl rfl) hrest
  simp only [append_nil] at hscan
  rw [scanNumber, hscan]
  dsimp only
  rw [hvalue.2]

theorem scanNumber_float {repr : List Char} (h : IsFloatRepr float repr)
    (hrest : StopsNumber rest) :
    scanNumber float (repr ++ rest) = some (.float repr, rest) := by
  obtain ⟨hfloat, whole, frac, exp, hwhole, hfrac, hexp, hne, rfl⟩ := h
  obtain ⟨c, tail, htail⟩ := exists_cons_of_ne_nil hne
  have hscan := scanNumberText_append hwhole hfrac hexp hrest
  rw [scanNumber, hscan]
  rw [htail] at hfloat ⊢
  dsimp only
  rw [hfloat]

mutual

theorem scanOnce_dumps : ∀ (value : Json), Representable float value →
    ∀ (fuel : Nat) (rest : List Char), (dumps value).length ≤ fuel → StopsNumber rest →
      scanOnce float fuel (dumps value ++ rest) = some (value, rest)
  | .none, _, fuel, rest, hfuel, _ => by
    cases fuel with
    | zero => exact absurd hfuel (by decide)
    | succ fuel => rfl
  | .bool true, _, fuel, rest, hfuel, _ => by
    cases fuel with
    | zero => exact absurd hfuel (by decide)
    | succ fuel => rfl
  | .bool false, _, fuel, rest, hfuel, _ => by
    cases fuel with
    | zero => exact absurd hfuel (by decide)
    | succ fuel => rfl
  | .int value, _, fuel, rest, hfuel, hrest => by
    have hstarts := startsNumber_whole (intValue_render value).1
    rw [dumps] at hfuel ⊢
    cases fuel with
    | zero =>
      obtain ⟨c, cs, hcs, -⟩ := hstarts []
      rw [append_nil] at hcs
      rw [hcs] at hfuel
      cases hfuel
    | succ fuel => rw [scanOnce_number float (hstarts rest), scanNumber_int float value hrest]
  | .float repr, hvalue, fuel, rest, hfuel, hrest => by
    rw [dumps] at hfuel ⊢
    have hscan := scanNumber_float float hvalue hrest
    obtain ⟨-, whole, frac, exp, hwhole, -, -, -, hrepr⟩ := hvalue
    have hstarts : StartsNumber (repr ++ rest) := by
      rw [hrepr, append_assoc]
      exact startsNumber_whole hwhole _
    cases fuel with
    | zero =>
      obtain ⟨c, cs, hcs, -⟩ := startsNumber_whole hwhole (frac ++ exp)
      rw [hrepr, hcs] at hfuel
      cases hfuel
    | succ fuel => rw [scanOnce_number float hstarts, hscan]
  | .str text, htext, fuel, rest, hfuel, _ => by
    cases fuel with
    | zero => cases hfuel
    | succ fuel => exact scanOnce_str float htext fuel rest
  | .list [], _, fuel, rest, hfuel, _ => by
    cases fuel with
    | zero => cases hfuel
    | succ fuel => rfl
  | .list (item :: items), hitems, fuel, rest, hfuel, _ => by
    cases fuel with
    | zero => cases hfuel
    | succ fuel =>
      obtain ⟨c, cs, hhead, hc⟩ := dumps_head float hitems.1
      obtain ⟨more, hmore⟩ := dumpsItems_head items hhead
      have hlen : (dumpsItems (item :: items)).length + 1 ≤ fuel := by
        simp only [dumps, length_cons, length_append, length_nil] at hfuel
        omega
      have hscan := scanItems_dumps (item :: items) (cons_ne_nil _ _) hitems fuel [] rest hlen
      rw [hmore, cons_append] at hscan
      rw [dumps, cons_append, cons_append, append_assoc, hmore,
        cons_append, scanOnce_list float fuel hc]
      exact hscan
  | .dict [], _, fuel, rest, hfuel, _ => by
    cases fuel with
    | zero => cases hfuel
    | succ fuel => rfl
  | .dict (e :: entries), hents, fuel, rest, hfuel, _ => by
    cases fuel with
    | zero => cases hfuel
    | succ fuel =>
      obtain ⟨more, hmore⟩ := dumpsEntries_head e entries
      have hlen : (dumpsEntries (e :: entries)).length + 1 ≤ fuel := by
        simp only [dumps, length_cons, length_append, length_nil] at hfuel
        omega
      have hscan := scanEntries_dumps (e :: entries) (cons_ne_nil _ _) hents.2 fuel []
        rest hlen hents.1
      rw [hmore, cons_append] at hscan
      rw [dumps, cons_append, cons_append, append_assoc, hmore,
        cons_append, scanOnce_dict]
      exact hscan

theorem scanItems_dumps : ∀ (items : List Json), items ≠ [] → RepresentableItems float items →
    ∀ (fuel : Nat) (before : List Json) (rest : List Char),
      (dumpsItems items).length + 1 ≤ fuel →
      scanItems float fuel before (dumpsItems items ++ ']' :: rest) =
        some (.list (before ++ items), rest)
  | [], hne, _, _, _, _, _ => absurd rfl hne
  | [item], _, hitems, fuel, before, rest, hfuel => by
    cases fuel with
    | zero => cases hfuel
    | succ fuel =>
      have hstops : StopsNumber (']' :: rest) := stopsNumber_cons (by decide) rest
      have hscan := scanOnce_dumps item hitems.1 fuel (']' :: rest)
        (Nat.le_of_succ_le_succ hfuel) hstops
      exact scanItems_last float hscan before
  | item :: next :: items, _, hitems, fuel, before, rest, hfuel => by
    cases fuel with
    | zero => cases hfuel
    | succ fuel =>
      obtain ⟨c, cs, hhead, hc⟩ := dumps_head float hitems.2.1
      obtain ⟨more, hmore⟩ := dumpsItems_head items hhead
      rw [dumpsItems_cons, length_append, length_cons, length_cons] at hfuel
      have hstops : StopsNumber (',' :: ' ' :: (dumpsItems (next :: items) ++ ']' :: rest)) :=
        stopsNumber_cons (by decide) _
      have hscan := scanOnce_dumps item hitems.1 fuel _ (by omega) hstops
      have hnext := scanItems_dumps (next :: items) (cons_ne_nil _ _) hitems.2 fuel
        (before ++ [item]) rest (by omega)
      rw [dumpsItems_cons, append_assoc, cons_append, cons_append,
        scanItems_more float hscan, skipWs_blank, hmore, cons_append, skipWs_cons hc,
        ← cons_append, ← hmore, hnext, append_assoc, singleton_append]

theorem scanEntries_dumps : ∀ (entries : List (List CodePoint × Json)), entries ≠ [] →
    RepresentableEntries float entries →
    ∀ (fuel : Nat) (before : List (List CodePoint × Json)) (rest : List Char),
      (dumpsEntries entries).length + 1 ≤ fuel → ((before ++ entries).map Prod.fst).Nodup →
      scanEntries float fuel before (dumpsEntries entries ++ '\x7d' :: rest) =
        some (.dict (before ++ entries), rest)
  | [], hne, _, _, _, _, _, _ => absurd rfl hne
  | [(key, value)], _, hents, fuel, before, rest, hfuel, hnodup => by
    cases fuel with
    | zero => cases hfuel
    | succ fuel =>
      obtain ⟨c, cs, hhead, hc⟩ := dumps_head float hents.2.1
      have hnew := setItem_new (not_mem_of_nodup hnodup) value
      have hstops : StopsNumber ('\x7d' :: rest) := stopsNumber_cons (by decide) rest
      simp only [dumpsEntries, length_append, length_cons] at hfuel
      have hscan := scanOnce_dumps value hents.2.1 fuel ('\x7d' :: rest) (by omega) hstops
      rw [hhead, cons_append] at hscan
      rw [dumpsEntries, append_assoc, cons_append, cons_append, hhead,
        cons_append, scanEntries_last float hents.1 hc hscan, hnew]
  | (key, value) :: next :: entries, _, hents, fuel, before, rest, hfuel, hnodup => by
    cases fuel with
    | zero => cases hfuel
    | succ fuel =>
      obtain ⟨c, cs, hhead, hc⟩ := dumps_head float hents.2.1
      obtain ⟨more, hmore⟩ := dumpsEntries_head next entries
      have hquote : StartsText '"' := by decide
      have hnew := setItem_new (not_mem_of_nodup hnodup) value
      have hsplit : before ++ (key, value) :: next :: entries =
          before ++ [(key, value)] ++ next :: entries := by simp
      have hstops :
          StopsNumber (',' :: ' ' :: (dumpsEntries (next :: entries) ++ '\x7d' :: rest)) :=
        stopsNumber_cons (by decide) _
      rw [dumpsEntries_cons] at hfuel
      simp only [length_append, length_cons] at hfuel
      have hscan := scanOnce_dumps value hents.2.1 fuel _ (by omega) hstops
      have hnext := scanEntries_dumps (next :: entries) (cons_ne_nil _ _) hents.2.2
        fuel (before ++ [(key, value)]) rest (by omega) (hsplit ▸ hnodup)
      rw [hhead, cons_append] at hscan
      have htext : dumpsEntries ((key, value) :: next :: entries) ++ '\x7d' :: rest =
          dumpsStr key ++ ':' :: ' ' :: c :: (cs ++
            ',' :: ' ' :: (dumpsEntries (next :: entries) ++ '\x7d' :: rest)) := by
        rw [dumpsEntries_cons, hhead]
        simp only [append_assoc, cons_append]
      rw [htext, scanEntries_more float hents.1 hc hscan, skipWs_blank, hmore,
        cons_append, skipWs_cons hquote, ← cons_append, ← hmore, hnew, hnext, hsplit]

end

theorem loads_dumps (h : Representable float value) :
    loads float (dumps value) = some value := by
  obtain ⟨c, cs, hhead, hc⟩ := dumps_head float h
  have hskip : skipWs (dumps value) = dumps value := by
    rw [hhead, skipWs_cons hc]
  have hscan := scanOnce_dumps float value h (2 * (dumps value).length + 2) [] (by omega)
    (fun c hc => by cases hc)
  rw [append_nil] at hscan
  have hmark : (dumps value).head? ≠ some (Char.ofNat 0xfeff) := by
    obtain ⟨-, -, -, -, -, hc⟩ := hc
    rw [hhead, head?_cons]
    exact fun h => hc (Option.some.inj h)
  rw [loads, if_neg hmark, hskip, hscan]
  rfl

theorem scanHex_length {digits value : Nat} (h : scanHex digits value cs = some (n, rest)) :
    rest.length ≤ cs.length := by
  induction digits generalizing value cs with
  | zero =>
    cases h
    exact Nat.le_refl _
  | succ digits ih =>
    cases cs with
    | nil => cases h
    | cons c cs =>
      rw [scanHex] at h
      split at h
      · exact Nat.le_succ_of_le (ih h)
      · cases h

theorem scanUnicode_length {c : CodePoint} (h : scanUnicode cs = some (c, rest)) :
    rest.length ≤ cs.length := by
  unfold scanUnicode at h
  split at h
  · cases h
  rename_i uni after hfirst
  have hafter := scanHex_length hfirst
  split at h
  · split at h
    · split at h
      · cases h
      rename_i second uni2 behind hsecond
      have hbehind := scanHex_length hsecond
      simp only [length_cons] at hafter
      split at h
      · rw [← (Prod.mk.inj (Option.some.inj h)).2]
        omega
      · rw [← (Prod.mk.inj (Option.some.inj h)).2]
        exact hafter
    · rw [← (Prod.mk.inj (Option.some.inj h)).2]
      exact hafter
  · rw [← (Prod.mk.inj (Option.some.inj h)).2]
    exact hafter

theorem scanEscape_length {c : CodePoint} (h : scanEscape cs = some (c, rest)) :
    rest.length < cs.length := by
  unfold scanEscape at h
  split at h
  case h_9 => exact Nat.lt_succ_of_le (scanUnicode_length h)
  case h_10 => cases h
  all_goals
    cases h
    exact Nat.lt_succ_self _

theorem scanString_length {before : List CodePoint}
    (h : scanString fuel before cs = some (text, rest)) :
    text.length + rest.length < before.length + cs.length := by
  induction fuel generalizing before cs with
  | zero => cases h
  | succ fuel ih =>
    cases cs with
    | nil => cases h
    | cons c cs =>
      rw [scanString] at h
      simp only [length_cons]
      split at h
      · cases h
        rw [length_reverse]
        omega
      split at h
      · split at h
        · rename_i escaped after hescape
          have hafter := scanEscape_length hescape
          have hih := ih h
          simp only [length_cons] at hih
          omega
        · cases h
      split at h
      · cases h
      · have hih := ih h
        simp only [length_cons] at hih
        omega

theorem scanItems_value {items : List Json}
    (h : scanItems float fuel items cs = some (value, rest)) :
    ∃ items, value = .list items := by
  induction fuel generalizing items cs with
  | zero => cases h
  | succ fuel ih =>
    rw [scanItems] at h
    split at h
    · cases h
    split at h
    · cases h
      exact ⟨_, rfl⟩
    · exact ih h
    · cases h

theorem scanEntries_value {entries : List (List CodePoint × Json)}
    (h : scanEntries float fuel entries cs = some (value, rest)) :
    ∃ entries, value = .dict entries := by
  induction fuel generalizing entries cs with
  | zero => cases h
  | succ fuel ih =>
    unfold scanEntries at h
    split at h
    · split at h
      · cases h
      split at h
      · split at h
        · cases h
        split at h
        · cases h
          exact ⟨_, rfl⟩
        · exact ih h
        · cases h
      · cases h
    · cases h

theorem scanLiteral_value {found : Json} (h : scanLiteral literal value cs = some (found, rest)) :
    found = value := by
  unfold scanLiteral at h
  split at h <;> cases h
  rfl

theorem scanNumber_not_str :
    scanNumber float cs ≠ some (.str text, rest) := by
  intro h
  unfold scanNumber at h
  split at h <;> cases h

theorem scanOnce_str_length (h : scanOnce float fuel cs = some (.str text, rest)) :
    text.length < cs.length := by
  cases fuel with
  | zero => cases h
  | succ fuel =>
    unfold scanOnce at h
    split at h
    · obtain ⟨⟨found, after⟩, hscan, heq⟩ := Option.map_eq_some_iff.mp h
      cases heq
      have hlength := scanString_length hscan
      simp only [length_nil, length_cons] at hlength ⊢
      omega
    · split at h
      · cases h
      · obtain ⟨entries, hvalue⟩ := scanEntries_value float h
        cases hvalue
    · split at h
      · cases h
      · obtain ⟨items, hvalue⟩ := scanItems_value float h
        cases hvalue
    · simp only [Option.or_eq_some_iff] at h
      rcases h with h | ⟨-, h | ⟨-, h | ⟨-, h | ⟨-, h | ⟨-, h | ⟨-, h⟩⟩⟩⟩⟩⟩
      · cases scanLiteral_value h
      · cases scanLiteral_value h
      · cases scanLiteral_value h
      · cases scanLiteral_value h
      · cases scanLiteral_value h
      · cases scanLiteral_value h
      · exact absurd h (scanNumber_not_str float)

theorem loads_str_length (h : loads float cs = some (.str text)) : text.length < cs.length := by
  unfold loads at h
  split at h
  · cases h
  split at h
  · cases h
  rename_i value rest hscan
  split at h <;> cases h
  have hlength := scanOnce_str_length float hscan
  have hskip : (skipWs cs).length ≤ cs.length := (dropWhile_sublist _).length_le
  omega

end Values

end DbClinic.PyJson
