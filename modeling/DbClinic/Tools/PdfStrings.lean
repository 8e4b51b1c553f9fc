import DbClinic.Tools.PdfSafety

/-!
Escaped strings in arrays. The decoder reads a string byte by byte. The scan of
the array then skips it by a counter that takes escaped parentheses for real
ones. The counter ends in place if the parentheses of the string are balanced,
or if nothing is opened after the one that closes too early, but at its end.
-/

namespace DbClinic.Tools

open List
open CheckedSlice (index slice sliceText isCharBoundary)
open DbClinic.Mcp (encodeUtf8 encodeUtf8_append)

/-- A character that a PDF string escapes. -/
def needsEscape (c : Char) : Bool := c = '\\' || c = '(' || c = ')'

def escape (text : List Char) : List Char :=
  text.flatMap fun c => if needsEscape c then ['\\', c] else [c]

/-- A string of an array, and what comes after it. -/
def arrayItem (item : List Char × List Char) : List Char :=
  '(' :: (escape item.1 ++ ')' :: item.2)

/-- `[ (text) gap (text) gap ] TJ`. -/
def arrayLine (items : List (List Char × List Char)) : List Char :=
  "[ ".toList ++ (items.flatMap arrayItem ++ "] TJ".toList)

/-- The bytes of a text, each as a character of its own. -/
def bytewise (text : List Char) : List Char := (encodeUtf8 text).map charFrom

theorem bytewise_cons (c : Char) (text : List Char) :
    bytewise (c :: text) = (String.utf8EncodeChar c).map charFrom ++ bytewise text := by
  unfold bytewise
  rw [encodeUtf8_cons, map_append]

theorem escape_cons (c : Char) (text : List Char) :
    escape (c :: text) = (if needsEscape c then ['\\', c] else [c]) ++ escape text := rfl

theorem escape_append (front back : List Char) :
    escape (front ++ back) = escape front ++ escape back := flatMap_append

section

variable {bytes : List UInt8} {i : Nat} {depth : Int} {result : List Char}

variable {rest : List UInt8} {b : UInt8}

theorem lt_of_drop (h : bytes.drop i = b :: rest) :
    i < bytes.length := by
  by_contra hle
  rw [drop_eq_nil_of_le (Nat.le_of_not_lt hle)] at h
  cases h

theorem index_of_drop (h : bytes.drop i = b :: rest) :
    index bytes i = .ok b := by
  apply CheckedSlice.index_ok
  rw [← Nat.add_zero i, ← getElem?_drop, h]
  rfl

theorem drop_add_of_drop {front : List UInt8} (h : bytes.drop i = front ++ rest) :
    bytes.drop (i + front.length) = rest := by
  rw [← drop_drop, h, drop_left]

theorem drop_succ_of_drop (h : bytes.drop i = b :: rest) :
    bytes.drop (i + 1) = rest := by
  rw [← drop_drop, h]
  rfl

/-- A byte that is no parenthesis and no backslash. -/
def isPlainByte (b : UInt8) : Bool := b != '('.toUInt8 && b != ')'.toUInt8 && b != '\\'.toUInt8

theorem parenthesizedFrom_open (h : bytes.drop i = '('.toUInt8 :: rest) :
    parenthesizedFrom bytes i 0 result = parenthesizedFrom bytes (i + 1) 1 result := by
  rw [parenthesizedFrom, if_pos (lt_of_drop h), index_of_drop h]
  simp

theorem parenthesizedFrom_close (h : bytes.drop i = ')'.toUInt8 :: rest) :
    parenthesizedFrom bytes i 1 result = .ok (some result) := by
  have hother : ')'.toUInt8 ≠ '('.toUInt8 := by decide
  rw [parenthesizedFrom, if_pos (lt_of_drop h), index_of_drop h]
  simp [hother]

theorem parenthesizedFrom_plain (h : bytes.drop i = b :: rest) (hb : isPlainByte b = true) :
    parenthesizedFrom bytes i depth result =
      parenthesizedFrom bytes (i + 1) depth (result ++ [charFrom b]) := by
  simp only [isPlainByte, Bool.and_eq_true, bne_iff_ne] at hb
  rw [parenthesizedFrom, if_pos (lt_of_drop h), index_of_drop h]
  simp only [hb.1.1, hb.1.2, hb.2, if_false, false_and]

theorem parenthesizedFrom_escaped (h : bytes.drop i = '\\'.toUInt8 :: b :: rest)
    (hb : b = '\\'.toUInt8 ∨ b = '('.toUInt8 ∨ b = ')'.toUInt8) :
    parenthesizedFrom bytes i depth result =
      parenthesizedFrom bytes (i + 2) depth (result ++ [charFrom b]) := by
  have hnext : bytes.drop (i + 1) = b :: rest := drop_succ_of_drop h
  have hunescape : unescape bytes (i + 1) b = .ok ([charFrom b], i + 1) := by
    rcases hb with rfl | rfl | rfl <;> rfl
  have hopen : '\\'.toUInt8 ≠ '('.toUInt8 := by decide
  have hclose : '\\'.toUInt8 ≠ ')'.toUInt8 := by decide
  rw [parenthesizedFrom, if_pos (lt_of_drop h), index_of_drop h]
  dsimp only
  rw [if_neg hopen, if_neg hclose, if_pos ⟨rfl, lt_of_drop hnext⟩, index_of_drop hnext]
  dsimp only
  split
  · rename_i e heq
    rw [hunescape] at heq
    cases heq
  · rename_i text last heq
    rw [hunescape] at heq
    cases heq
    rfl

theorem parenthesizedFrom_plains {front : List UInt8} (h : bytes.drop i = front ++ rest)
    (hplain : ∀ b ∈ front, isPlainByte b = true) :
    parenthesizedFrom bytes i depth result =
      parenthesizedFrom bytes (i + front.length) depth (result ++ front.map charFrom) := by
  induction front generalizing i result with
  | nil => simp
  | cons b front ih =>
    have hnext : bytes.drop (i + 1) = front ++ rest := drop_succ_of_drop h
    rw [parenthesizedFrom_plain h (hplain b mem_cons_self),
      ih hnext fun b' hb' => hplain b' (mem_cons_of_mem b hb')]
    simp only [length_cons, map_cons, append_assoc, cons_append,
      nil_append]
    congr 1
    omega

theorem isPlainByte_encoded {c : Char} (h : needsEscape c = false) :
    ∀ b ∈ String.utf8EncodeChar c, isPlainByte b = true := by
  intro b hb
  have hne {d : Char} (hd : d.toNat < 0x80) (hc : c ≠ d) : b ≠ d.toUInt8 := by
    rintro rfl
    have hmem : d.toUInt8 ∈ encodeUtf8 [c] :=
      mem_flatMap.mpr ⟨c, mem_singleton_self c, hb⟩
    exact hc (mem_singleton.mp ((mem_encodeUtf8_iff hd).mp hmem)).symm
  simp only [needsEscape, Bool.or_eq_false_iff, decide_eq_false_iff_not] at h
  simp only [isPlainByte, Bool.and_eq_true, bne_iff_ne]
  exact ⟨⟨hne (by decide) h.1.2, hne (by decide) h.2⟩, hne (by decide) h.1.1⟩

theorem parenthesizedFrom_escape {text : List Char}
    (h : bytes.drop i = encodeUtf8 (escape text) ++ rest) :
    parenthesizedFrom bytes i depth result =
      parenthesizedFrom bytes (i + (encodeUtf8 (escape text)).length) depth
        (result ++ bytewise text) := by
  induction text generalizing i result with
  | nil => simp [escape, encodeUtf8, bytewise]
  | cons c text ih =>
    rw [escape_cons, encodeUtf8_append] at h ⊢
    rw [append_assoc] at h
    have hlast := @ih _ (result ++ (String.utf8EncodeChar c).map charFrom) (drop_add_of_drop h)
    rw [append_assoc, ← bytewise_cons] at hlast
    rw [length_append, ← Nat.add_assoc, ← hlast]
    cases hc : needsEscape c with
    | false =>
      rw [hc] at h
      have hchar : encodeUtf8 [c] = String.utf8EncodeChar c := append_nil _
      simp only [Bool.false_eq_true, if_false, hchar] at h ⊢
      exact parenthesizedFrom_plains h (isPlainByte_encoded hc)
    | true =>
      rw [hc] at h
      simp only [needsEscape, Bool.or_eq_true, decide_eq_true_eq] at hc
      simp only [if_true] at h ⊢
      rcases hc with (rfl | rfl) | rfl
      · exact parenthesizedFrom_escaped h (.inl rfl)
      · exact parenthesizedFrom_escaped h (.inr (.inl rfl))
      · exact parenthesizedFrom_escaped h (.inr (.inr rfl))

end

def groupBytes (text : List Char) : List UInt8 :=
  '('.toUInt8 :: (encodeUtf8 (escape text) ++ [')'.toUInt8])

theorem extractParenthesizedString_group (text : List Char) (rest : List UInt8) :
    extractParenthesizedString (groupBytes text ++ rest) = .ok (some (bytewise text)) := by
  have hfind : (groupBytes text ++ rest).findIdx? (· = '('.toUInt8) = some 0 := by
    simp [groupBytes, findIdx?_cons]
  have hbytes : groupBytes text ++ rest = '('.toUInt8 ::
      (encodeUtf8 (escape text) ++ (')'.toUInt8 :: rest)) := by simp [groupBytes]
  have hstart : (groupBytes text ++ rest).drop 0 = '('.toUInt8 ::
      (encodeUtf8 (escape text) ++ (')'.toUInt8 :: rest)) := hbytes
  have hopen : (groupBytes text ++ rest).drop 1 =
      encodeUtf8 (escape text) ++ (')'.toUInt8 :: rest) := by rw [hbytes]; rfl
  unfold extractParenthesizedString
  rw [hfind]
  dsimp only
  rw [parenthesizedFrom_open hstart, parenthesizedFrom_escape hopen,
    parenthesizedFrom_close (drop_add_of_drop hopen)]
  rfl

/-- The depth of parentheses behind a text that begins at some depth; none where
one is closed that was not opened. -/
def nesting : Nat → List Char → Option Nat
  | depth, [] => some depth
  | depth, c :: text =>
    if c = '(' then nesting (depth + 1) text
    else if c = ')' then
      match depth with
      | 0 => none
      | outer + 1 => nesting outer text
    else nesting depth text

theorem nesting_cons (depth : Nat) (c : Char) (text : List Char) :
    nesting depth (c :: text) =
      if c = '(' then nesting (depth + 1) text
      else if c = ')' then
        match depth with
        | 0 => none
        | outer + 1 => nesting outer text
      else nesting depth text := by
  cases depth <;> rfl

theorem nesting_append (depth : Nat) (front back : List Char) :
    nesting depth (front ++ back) = (nesting depth front).bind (nesting · back) := by
  induction front generalizing depth with
  | nil => rfl
  | cons c front ih =>
    rw [cons_append, nesting_cons, nesting_cons]
    split
    · apply ih
    · split
      · cases depth with
        | zero => rfl
        | succ outer => apply ih
      · apply ih

variable {text : List Char}

theorem exists_early_close {depth : Nat} (h : nesting depth text = none) :
    ∃ front back, text = front ++ ')' :: back ∧ nesting depth front = some 0 := by
  induction text generalizing depth with
  | nil => cases h
  | cons c text ih =>
    have hnext {deeper : Nat} (hstep : nesting depth [c] = some deeper)
        (hrest : nesting deeper text = none) :
        ∃ front back, c :: text = front ++ ')' :: back ∧ nesting depth front = some 0 := by
      obtain ⟨front, back, rfl, hfront⟩ := ih hrest
      refine ⟨c :: front, back, rfl, ?_⟩
      have happend := nesting_append depth [c] front
      rw [hstep] at happend
      exact happend.trans hfront
    rw [nesting_cons] at h
    split at h
    · rename_i hc
      exact hnext (by simp [nesting, hc]) h
    · split at h
      · rename_i hopen hc
        cases depth with
        | zero => exact ⟨[], text, by rw [hc]; rfl, rfl⟩
        | succ outer => exact hnext (by simp [nesting, hc]) h
      · rename_i hopen hclose
        exact hnext (by simp [nesting, hopen, hclose]) h

theorem skipGroup_plains {front : List UInt8} (rest : List UInt8) (i depth : Nat)
    (hopen : '('.toUInt8 ∉ front) (hclose : ')'.toUInt8 ∉ front) :
    skipGroup (front ++ rest) i depth = skipGroup rest (i + front.length) depth := by
  induction front generalizing i with
  | nil => rfl
  | cons b front ih =>
    simp only [mem_cons, not_or] at hopen hclose
    rw [cons_append, skipGroup, if_neg (Ne.symm hopen.1), if_neg (Ne.symm hclose.1),
      ih _ hopen.2 hclose.2, length_cons]
    congr 1
    omega

theorem skipGroup_escape {depth deeper : Nat} (h : nesting depth text = some deeper)
    (rest : List UInt8) (i : Nat) :
    skipGroup (encodeUtf8 (escape text) ++ rest) i (depth + 1) =
      skipGroup rest (i + (encodeUtf8 (escape text)).length) (deeper + 1) := by
  induction text generalizing depth i with
  | nil =>
    cases h
    rfl
  | cons c text ih =>
    rw [escape_cons, encodeUtf8_append, append_assoc, length_append, ← Nat.add_assoc]
    rw [nesting_cons] at h
    split at h
    · rename_i hc
      subst hc
      exact ih h (i + 2)
    · rename_i hopen
      split at h
      · rename_i hc
        subst hc
        cases depth with
        | zero => cases h
        | succ outer => exact ih h (i + 2)
      · rename_i hclose
        have hnot {d : Char} (hd : d.toNat < 0x80) (hne : c ≠ d) (hslash : d ≠ '\\') :
            d.toUInt8 ∉ encodeUtf8 (if needsEscape c then ['\\', c] else [c]) := by
          rw [mem_encodeUtf8_iff hd]
          split <;> simp [hne.symm, hslash]
        rw [skipGroup_plains _ _ _ (hnot (by decide) hopen (by decide))
          (hnot (by decide) hclose (by decide))]
        exact ih h _

theorem skipGroup_group (h : nesting 0 text = some 0) (rest : List UInt8) (i : Nat) :
    skipGroup (groupBytes text ++ rest) i 0 = i + (groupBytes text).length := by
  have hbytes : groupBytes text ++ rest = '('.toUInt8 ::
      (encodeUtf8 (escape text) ++ (')'.toUInt8 :: rest)) := by simp [groupBytes]
  have hother : ')'.toUInt8 ≠ '('.toUInt8 := by decide
  rw [hbytes, skipGroup, if_pos rfl, skipGroup_escape h, skipGroup, if_neg hother, if_pos rfl]
  simp [groupBytes]
  omega

theorem skipGroup_open {deeper : Nat} (h : nesting 0 text = some (deeper + 1)) (rest : List UInt8)
    (i : Nat) :
    skipGroup (groupBytes text ++ rest) i 0 =
      skipGroup rest (i + (groupBytes text).length) (deeper + 1) := by
  have hbytes : groupBytes text ++ rest = '('.toUInt8 ::
      (encodeUtf8 (escape text) ++ (')'.toUInt8 :: rest)) := by simp [groupBytes]
  have hother : ')'.toUInt8 ≠ '('.toUInt8 := by decide
  have hlen : (groupBytes text).length = (encodeUtf8 (escape text)).length + 2 := by
    simp [groupBytes]
  rw [hbytes, skipGroup, if_pos rfl, skipGroup_escape h, skipGroup, if_neg hother, if_pos rfl,
    if_neg (by omega), hlen]
  congr 1
  omega

theorem skipGroup_early {front : List Char} (h : nesting 0 front = some 0) (back : List Char)
    (rest : List UInt8) (i : Nat) :
    skipGroup (groupBytes (front ++ ')' :: back) ++ rest) i 0 =
      i + ('('.toUInt8 :: encodeUtf8 (escape (front ++ [')']))).length := by
  have hescape : escape (front ++ ')' :: back) = escape front ++ '\\' :: ')' :: escape back := by
    rw [escape_append]
    rfl
  have hbytes : groupBytes (front ++ ')' :: back) ++ rest = '('.toUInt8 ::
      (encodeUtf8 (escape front) ++ ('\\'.toUInt8 :: ')'.toUInt8 ::
        (encodeUtf8 (escape back) ++ (')'.toUInt8 :: rest)))) := by
    unfold groupBytes
    rw [hescape, encodeUtf8_append]
    simp [encodeUtf8_cons, encodeUtf8_ascii]
  have hlen : (encodeUtf8 (escape (front ++ [')']))).length =
      (encodeUtf8 (escape front)).length + 2 := by
    rw [escape_append, encodeUtf8_append, length_append]
    rfl
  have hopen : '\\'.toUInt8 ≠ '('.toUInt8 := by decide
  have hclose : '\\'.toUInt8 ≠ ')'.toUInt8 := by decide
  have hother : ')'.toUInt8 ≠ '('.toUInt8 := by decide
  rw [hbytes, skipGroup, if_pos rfl, skipGroup_escape h, skipGroup, if_neg hopen, if_neg hclose,
    skipGroup, if_neg hother, if_pos rfl, if_pos rfl, length_cons, hlen]
  omega

section

variable {inner : List UInt8} {i : Nat} {result : List Char}

variable {rest : List UInt8}

theorem tjFrom_plains {front : List UInt8} (h : inner.drop i = front ++ rest)
    (hopen : '('.toUInt8 ∉ front) :
    tjFrom inner i result = tjFrom inner (i + front.length) result := by
  induction front generalizing i with
  | nil => rfl
  | cons b front ih =>
    have hnext : inner.drop (i + 1) = front ++ rest := drop_succ_of_drop h
    simp only [mem_cons, not_or] at hopen
    rw [tjFrom, dif_pos (lt_of_drop h), index_of_drop h]
    dsimp only
    rw [if_neg (Ne.symm hopen.1), ih hnext hopen.2, length_cons]
    congr 1
    omega

theorem tjFrom_group (h : inner.drop i = groupBytes text ++ rest) :
    tjFrom inner i result =
      tjFrom inner (skipGroup (groupBytes text ++ rest) i 0) (result ++ bytewise text) := by
  have hlt : i < inner.length := lt_of_drop h
  have hbyte : inner[i]? = some '('.toUInt8 := by
    rw [← Nat.add_zero i, ← getElem?_drop, h]
    rfl
  have hboundary : isCharBoundary inner i = true :=
    CheckedSlice.isCharBoundary_of_byte hbyte (by decide)
  have htail : sliceText inner i inner.length = .ok (groupBytes text ++ rest) := by
    rw [← h]
    unfold sliceText
    rw [if_pos ⟨Nat.le_of_lt hlt, hboundary, CheckedSlice.isCharBoundary_length inner⟩,
      take_length]
  have hrest := CheckedSlice.slice_rest (Nat.le_of_lt hlt)
  rw [tjFrom, dif_pos hlt, index_of_drop h]
  dsimp only
  rw [if_pos rfl, htail]
  dsimp only
  rw [extractParenthesizedString_group]
  dsimp only
  split
  · rename_i e heq
    rw [hrest] at heq
    cases heq
  · rename_i bytes heq
    rw [hrest, h] at heq
    cases heq
    rfl

/-- The counter ends in the right place, or before a part of the text in which
nothing is opened but at its very end. -/
def InPlace (text : List Char) : Prop :=
  nesting 0 text = some 0 ∨
    ∃ front back, text = front ++ ')' :: back ∧ nesting 0 front = some 0 ∧ '(' ∉ back.dropLast

theorem mem_escape_iff {c : Char} (hc : c ≠ '\\') :
    c ∈ escape text ↔ c ∈ text := by
  induction text with
  | nil => rfl
  | cons d text ih =>
    rw [escape_cons, mem_append, ih, mem_cons]
    split <;> simp [hc]

theorem open_notMem_escape (h : '(' ∉ text) :
    '('.toUInt8 ∉ encodeUtf8 (escape text) := by
  rw [mem_encodeUtf8_iff (by decide), mem_escape_iff (by decide)]
  exact h

theorem tjFrom_early (result : List Char) {front back : List Char}
    (hfront : nesting 0 front = some 0)
    (h : inner.drop i = groupBytes (front ++ ')' :: back) ++ rest) :
    ∃ j, tjFrom inner i result = tjFrom inner j (result ++ bytewise (front ++ ')' :: back)) ∧
      inner.drop j = encodeUtf8 (escape back) ++ ')'.toUInt8 :: rest ∧
      i + (groupBytes (front ++ ')' :: back)).length =
        j + ((encodeUtf8 (escape back)).length + 1) := by
  have hparts : groupBytes (front ++ ')' :: back) =
      ('('.toUInt8 :: encodeUtf8 (escape (front ++ [')']))) ++
        (encodeUtf8 (escape back) ++ [')'.toUInt8]) := by
    unfold groupBytes
    rw [append_cons front, escape_append, encodeUtf8_append]
    simp
  have hlen := congrArg List.length hparts
  simp only [length_append, length_singleton] at hlen
  have hdrop := h
  rw [hparts, append_assoc, append_assoc] at hdrop
  refine ⟨_, ?_, drop_add_of_drop hdrop, ?_⟩
  · rw [tjFrom_group h, skipGroup_early hfront]
  · omega

theorem tjFrom_inPlace (hplace : InPlace text) (h : inner.drop i = groupBytes text ++ rest) :
    tjFrom inner i result =
      tjFrom inner (i + (groupBytes text).length) (result ++ bytewise text) := by
  rcases hplace with hbalanced | ⟨front, back, rfl, hfront, hback⟩
  · rw [tjFrom_group h, skipGroup_group hbalanced]
  · obtain ⟨j, hread, hnext, hlen⟩ := tjFrom_early result hfront h
    rw [hread, hlen]
    generalize result ++ bytewise (front ++ ')' :: back) = read
    have hplain (hnone : '(' ∉ back) :
        tjFrom inner j read = tjFrom inner (j + ((encodeUtf8 (escape back)).length + 1)) read := by
      have hend : inner.drop j = (encodeUtf8 (escape back) ++ [')'.toUInt8]) ++ rest := by
        rw [hnext, append_assoc]
        rfl
      have hopen : '('.toUInt8 ∉ encodeUtf8 (escape back) ++ [')'.toUInt8] := by
        simp only [mem_append, mem_singleton, not_or]
        exact ⟨open_notMem_escape hnone, by decide⟩
      rw [tjFrom_plains hend hopen, length_append, length_singleton]
    rcases eq_nil_or_concat back with rfl | ⟨kept, c, rfl⟩
    · exact hplain not_mem_nil
    · rw [concat_eq_append] at hback hnext hplain ⊢
      rw [dropLast_concat] at hback
      by_cases hc : c = '('
      · -- the group that is opened at the end is empty
        subst hc
        have hgroup : encodeUtf8 (escape (kept ++ ['('])) ++ ')'.toUInt8 :: rest =
            (encodeUtf8 (escape kept) ++ ['\\'.toUInt8]) ++ (groupBytes [] ++ rest) := by
          rw [escape_append, encodeUtf8_append, append_assoc, append_assoc]
          rfl
        rw [hgroup] at hnext
        have hkept : '('.toUInt8 ∉ encodeUtf8 (escape kept) ++ ['\\'.toUInt8] := by
          simp only [mem_append, mem_singleton, not_or]
          exact ⟨open_notMem_escape hback, by decide⟩
        have hempty : nesting 0 [] = some 0 := rfl
        have hnothing : read ++ bytewise [] = read := append_nil read
        rw [tjFrom_plains hnext hkept, tjFrom_group (drop_add_of_drop hnext),
          skipGroup_group hempty, hnothing, escape_append, encodeUtf8_append]
        simp only [length_append, Nat.add_assoc]
        rfl
      · apply hplain
        simp only [mem_append, mem_singleton, not_or]
        exact ⟨hback, Ne.symm hc⟩

/-- A character between the strings of an array. -/
def isGapChar (c : Char) : Bool := c = ' ' || c.isDigit || c = '+' || c = '-' || c = '.'

theorem bytes_arrayItem (item : List Char × List Char) :
    encodeUtf8 (arrayItem item) = groupBytes item.1 ++ encodeUtf8 item.2 := by
  unfold arrayItem groupBytes
  rw [encodeUtf8_cons, encodeUtf8_append, encodeUtf8_cons, encodeUtf8_ascii (by decide),
    encodeUtf8_ascii (by decide)]
  simp

theorem open_notMem_gap {gap : List Char} (h : ∀ c ∈ gap, isGapChar c = true) :
    '('.toUInt8 ∉ encodeUtf8 gap := by
  rw [mem_encodeUtf8_iff (by decide)]
  intro hmem
  exact absurd (h '(' hmem) (by decide)

theorem tjFrom_items {items : List (List Char × List Char)}
    (hplace : ∀ item ∈ items, InPlace item.1)
    (hgap : ∀ item ∈ items, ∀ c ∈ item.2, isGapChar c = true)
    (h : inner.drop i = encodeUtf8 (items.flatMap arrayItem)) :
    tjFrom inner i result = .ok (result ++ items.flatMap fun item => bytewise item.1) := by
  induction items generalizing i result with
  | nil =>
    have hend : ¬ i < inner.length := Nat.not_lt.mpr (drop_eq_nil_iff.mp h)
    rw [tjFrom, dif_neg hend]
    simp
  | cons item items ih =>
    rw [flatMap_cons, encodeUtf8_append, bytes_arrayItem, append_assoc] at h
    have hnext := drop_add_of_drop h
    rw [tjFrom_inPlace (hplace item mem_cons_self) h,
      tjFrom_plains hnext (open_notMem_gap (hgap item mem_cons_self)),
      ih (fun other hmem => hplace other (mem_cons_of_mem item hmem))
        (fun other hmem => hgap other (mem_cons_of_mem item hmem))
        (drop_add_of_drop hnext), flatMap_cons, append_assoc]

end

theorem extractTjArray_arrayLine (items : List (List Char × List Char)) :
    extractTjArray (encodeUtf8 (arrayLine items)) =
      tjFrom (encodeUtf8 (' ' :: items.flatMap arrayItem)) 0 [] := by
  have hfirst : arrayLine items =
      [] ++ '[' :: (' ' :: (items.flatMap arrayItem ++ "] TJ".toList)) := rfl
  have hlast : arrayLine items =
      ('[' :: ' ' :: items.flatMap arrayItem) ++ ']' :: " TJ".toList := rfl
  have hopen : (encodeUtf8 (arrayLine items)).findIdx? (· = '['.toUInt8) = some 0 := by
    rw [hfirst]
    exact find_encoded (by decide) not_mem_nil _
  have hclose : rfind ']'.toUInt8 (encodeUtf8 (arrayLine items)) =
      some (encodeUtf8 ('[' :: ' ' :: items.flatMap arrayItem)).length := by
    rw [hlast]
    exact rfind_encoded (by decide) _ (by decide)
  have hstart : isCharBoundary (encodeUtf8 (arrayLine items)) (0 + 1) = true := by
    have hbyte := encodeUtf8_getElem (c := '[') (by decide) []
      (' ' :: (items.flatMap arrayItem ++ "] TJ".toList))
    exact CheckedSlice.isCharBoundary_succ (arrayLine items) hbyte (by decide)
  have hstop : isCharBoundary (encodeUtf8 (arrayLine items))
      (encodeUtf8 ('[' :: ' ' :: items.flatMap arrayItem)).length = true := by
    have hbyte := encodeUtf8_getElem (c := ']') (by decide)
      ('[' :: ' ' :: items.flatMap arrayItem) " TJ".toList
    exact CheckedSlice.isCharBoundary_of_byte hbyte (by decide)
  have hle : 0 + 1 ≤ (encodeUtf8 ('[' :: ' ' :: items.flatMap arrayItem)).length := by
    rw [encodeUtf8_cons, encodeUtf8_ascii (by decide)]
    simp
  unfold extractTjArray
  rw [hopen, hclose]
  dsimp only
  unfold sliceText
  rw [if_pos ⟨hle, hstart, hstop⟩, hlast, encodeUtf8_append, take_left]
  rfl

end DbClinic.Tools
