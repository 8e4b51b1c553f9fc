import DbClinic.Api.SseParser
import DbClinic.Lib.CheckedSlice
import DbClinic.Mcp.Framing

/-!
The text of a PDF file. The content streams are the bytes between `stream` and
`endstream`, inflated where the dictionary before says so; of these, the text
operators between `BT` and `ET` lines are read. Every access to bytes is
checked, a string slice also for character boundaries. The inflater is a
parameter. Depths of parentheses are counted without a bound.
-/

namespace DbClinic.Tools

open CheckedSlice (index slice sliceText)
open DbClinic.Api (fromUtf8Lossy position)
open DbClinic.Mcp (encodeUtf8)
open DbClinic.Runtime (isWhitespace textLines trimMatches)

/-- `char::from` of a byte. -/
def charFrom (b : UInt8) : Char := Char.ofNat b.toNat

def isOctalDigit (b : UInt8) : Bool := '0'.toUInt8 ≤ b && b ≤ '7'.toUInt8

def octalDigit (b : UInt8) : Nat := b.toNat - '0'.toNat

/-- The further digits of an octal escape, at most `rounds` of them behind `i`:
its value, and the place of its last digit. -/
def octalFrom (bytes : List UInt8) : (rounds i octal : Nat) → Except AccessFault (Nat × Nat)
  | 0, i, octal => .ok (octal, i)
  | rounds + 1, i, octal =>
    if i + 1 < bytes.length then
      match index bytes (i + 1) with
      | .error e => .error e
      | .ok b =>
        if isOctalDigit b then octalFrom bytes rounds (i + 1) (octal * 8 + octalDigit b)
        else .ok (octal, i)
    else .ok (octal, i)

variable {bytes data rest : List UInt8} {i last offset : Nat}

theorem octalFrom_le {rounds octal value : Nat}
    (h : octalFrom bytes rounds i octal = .ok (value, last)) : i ≤ last := by
  induction rounds generalizing i octal with
  | zero =>
    cases h
    exact Nat.le_refl _
  | succ rounds ih =>
    rw [octalFrom] at h
    split at h
    · split at h
      · cases h
      · split at h
        · have hle := ih h
          omega
        · cases h
          exact Nat.le_refl _
    · cases h
      exact Nat.le_refl _

/-- `char::from_u32`, as far as an octal escape goes. -/
def charFromOctal (octal : Nat) : List Char :=
  if octal.isValidChar then [Char.ofNat octal] else []

/-- What an escape stands for whose character is at `i`, and its last place. -/
def unescape (bytes : List UInt8) (i : Nat) (b : UInt8) : Except AccessFault (List Char × Nat) :=
  if b = 'n'.toUInt8 then .ok (['\n'], i)
  else if b = 'r'.toUInt8 then .ok (['\r'], i)
  else if b = 't'.toUInt8 then .ok (['\t'], i)
  else if b = '\\'.toUInt8 then .ok (['\\'], i)
  else if b = '('.toUInt8 then .ok (['('], i)
  else if b = ')'.toUInt8 then .ok ([')'], i)
  else if isOctalDigit b then
    match octalFrom bytes 2 i (octalDigit b) with
    | .error e => .error e
    | .ok (octal, last) => .ok (charFromOctal octal, last)
  else .ok ([charFrom b], i)

theorem unescape_le {b : UInt8} {text : List Char} (h : unescape bytes i b = .ok (text, last)) :
    i ≤ last := by
  unfold unescape at h
  repeat' split at h
  all_goals cases h
  all_goals first
    | exact Nat.le_refl _
    | exact octalFrom_le ‹_›

/-- The loop of `extract_parenthesized_string`. -/
def parenthesizedFrom (bytes : List UInt8) (i : Nat) (depth : Int) (result : List Char) :
    Except AccessFault (Option (List Char)) :=
  if i < bytes.length then
    match index bytes i with
    | .error e => .error e
    | .ok b =>
      if b = '('.toUInt8 then
        parenthesizedFrom bytes (i + 1) (depth + 1)
          (if 0 < depth then result ++ ['('] else result)
      else if b = ')'.toUInt8 then
        if depth - 1 = 0 then .ok (some result)
        else parenthesizedFrom bytes (i + 1) (depth - 1) (result ++ [')'])
      else if b = '\\'.toUInt8 ∧ i + 1 < bytes.length then
        match index bytes (i + 1) with
        | .error e => .error e
        | .ok escaped =>
          match _h : unescape bytes (i + 1) escaped with
          | .error e => .error e
          | .ok (text, last) => parenthesizedFrom bytes (last + 1) depth (result ++ text)
      else parenthesizedFrom bytes (i + 1) depth (result ++ [charFrom b])
  else .ok none
termination_by bytes.length - i
decreasing_by
  all_goals first
    | omega
    | have hle := unescape_le _h
      omega

/-- The text of the first group in parentheses of a text. -/
def extractParenthesizedString (input : List UInt8) : Except AccessFault (Option (List Char)) :=
  match input.findIdx? (· = '('.toUInt8) with
  | none => .ok none
  | some openParen => parenthesizedFrom input openParen 0 []

/-- The place after the parenthesis that closes the group at `i`. -/
def skipGroup : List UInt8 → (i depth : Nat) → Nat
  | [], i, _ => i
  | b :: rest, i, depth =>
    if b = '('.toUInt8 then skipGroup rest (i + 1) (depth + 1)
    else if b = ')'.toUInt8 then
      if depth - 1 = 0 then i + 1 else skipGroup rest (i + 1) (depth - 1)
    else skipGroup rest (i + 1) depth

theorem skipGroup_le (rest : List UInt8) (i depth : Nat) : i ≤ skipGroup rest i depth := by
  induction rest generalizing i depth with
  | nil => exact Nat.le_refl _
  | cons b rest ih =>
    have hnext (depth : Nat) := ih (i + 1) depth
    have hopen := hnext (depth + 1)
    have hclose := hnext (depth - 1)
    have hother := hnext depth
    unfold skipGroup
    repeat' split
    all_goals omega

theorem skipGroup_lt (hne : rest ≠ []) (i : Nat) : i < skipGroup rest i 0 := by
  cases rest with
  | nil => exact absurd rfl hne
  | cons b rest =>
    have hnext (depth : Nat) := skipGroup_le rest (i + 1) depth
    have hopen := hnext (0 + 1)
    have hclose := hnext (0 - 1)
    have hother := hnext 0
    unfold skipGroup
    repeat' split
    all_goals omega

theorem slice_rest_ne_nil (hi : i < bytes.length) (h : slice bytes i bytes.length = .ok rest) :
    rest ≠ [] := by
  rw [CheckedSlice.slice_rest (Nat.le_of_lt hi)] at h
  cases h
  exact List.drop_eq_nil_iff.not.mpr (Nat.not_le.mpr hi)

/-- The loop of `extract_tj_array`. -/
def tjFrom (inner : List UInt8) (i : Nat) (result : List Char) :
    Except AccessFault (List Char) :=
  if _hi : i < inner.length then
    match index inner i with
    | .error e => .error e
    | .ok b =>
      if b = '('.toUInt8 then
        match sliceText inner i inner.length with
        | .error e => .error e
        | .ok tail =>
          match extractParenthesizedString tail with
          | .error e => .error e
          | .ok none => tjFrom inner (i + 1) result
          | .ok (some text) =>
            match _h : slice inner i inner.length with
            | .error e => .error e
            | .ok rest => tjFrom inner (skipGroup rest i 0) (result ++ text)
      else tjFrom inner (i + 1) result
  else .ok result
termination_by inner.length - i
decreasing_by
  all_goals first
    | omega
    | have hlt := skipGroup_lt (slice_rest_ne_nil _hi _h) i
      omega

/-- `str::rfind` of an ASCII character. -/
def rfind (b : UInt8) (text : List UInt8) : Option Nat :=
  (text.reverse.findIdx? (· = b)).map (text.length - 1 - ·)

/-- The strings of an array, without what is between them. -/
def extractTjArray (input : List UInt8) : Except AccessFault (List Char) :=
  match input.findIdx? (· = '['.toUInt8), rfind ']'.toUInt8 input with
  | some bracketStart, some bracketEnd =>
    match sliceText input (bracketStart + 1) bracketEnd with
    | .error e => .error e
    | .ok inner => tjFrom inner 0 []
  | _, _ => .ok []

def endsWith (line : List Char) (suffix : String) : Bool := suffix.toList.isSuffixOf line

/-- Whether a line is a `'` or `"` operator. -/
def isNewlineShowOperator (trimmed : List Char) : Bool :=
  (endsWith trimmed "'" && 1 < (encodeUtf8 trimmed).length) ||
    (endsWith trimmed "\"" && trimmed.contains '(')

/-- Some text behind the result, after a blank where the result does not end a line. -/
def pushSpaced (result text : List Char) : List Char :=
  if result ≠ [] ∧ result.getLast? ≠ some '\n' then result ++ ' ' :: text else result ++ text

def pushLine (result text : List Char) : List Char :=
  if result ≠ [] then result ++ '\n' :: text else result ++ text

def showLine (result trimmed : List Char) : Except AccessFault (List Char) :=
  if endsWith trimmed "Tj" then
    match extractParenthesizedString (encodeUtf8 trimmed) with
    | .error e => .error e
    | .ok none => .ok result
    | .ok (some text) => .ok (pushSpaced result text)
  else if endsWith trimmed "TJ" then
    match extractTjArray (encodeUtf8 trimmed) with
    | .error e => .error e
    | .ok [] => .ok result
    | .ok (c :: text) => .ok (pushSpaced result (c :: text))
  else if isNewlineShowOperator trimmed then
    match extractParenthesizedString (encodeUtf8 trimmed) with
    | .error e => .error e
    | .ok none => .ok result
    | .ok (some text) => .ok (pushLine result text)
  else .ok result

/-- The loop of `extract_bt_et_text`. -/
def showLines : List (List Char) → (inBt : Bool) → (result : List Char) →
    Except AccessFault (List Char)
  | [], _, result => .ok result
  | line :: lines, inBt, result =>
    let trimmed := trimMatches isWhitespace line
    if trimmed = "BT".toList then showLines lines true result
    else if trimmed = "ET".toList then showLines lines false result
    else if !inBt then showLines lines inBt result
    else match showLine result trimmed with
      | .error e => .error e
      | .ok next => showLines lines inBt next

def extractBtEtText (stream : List UInt8) : Except AccessFault (List Char) :=
  showLines (textLines (fromUtf8Lossy stream)) false []

/-- `find_subsequence`. -/
def findSubsequence (haystack needle : List UInt8) : Option Nat := position needle haystack

/-- The place after the line break that `pos` may be at. -/
def skipStreamEol (data : List UInt8) (pos : Nat) : Except AccessFault Nat :=
  if pos < data.length then
    match index data pos with
    | .error e => .error e
    | .ok first =>
      if first = '\r'.toUInt8 then
        if pos + 1 < data.length then
          match index data (pos + 1) with
          | .error e => .error e
          | .ok second => if second = '\n'.toUInt8 then .ok (pos + 2) else .ok (pos + 1)
        else .ok (pos + 1)
      else if first = '\n'.toUInt8 then .ok (pos + 1)
      else .ok pos
  else .ok pos

/-- `b"stream"`. -/
def streamKeyword : List UInt8 := "stream".toList.map Char.toUInt8

/-- `b"endstream"`. -/
def endKeyword : List UInt8 := "endstream".toList.map Char.toUInt8

/-- `b"FlateDecode"`. -/
def flateKeyword : List UInt8 := "FlateDecode".toList.map Char.toUInt8

/-- A stream of the file: whether it is deflated, its bytes, and where they end. -/
structure FoundStream where
  isFlate : Bool
  raw : List UInt8
  contentEnd : Nat
  deriving DecidableEq

/-- The first stream behind `offset`. -/
def nextStream (data : List UInt8) (offset : Nat) : Except AccessFault (Option FoundStream) := do
  let tail ← slice data offset data.length
  match findSubsequence tail streamKeyword with
  | none => return none
  | some streamStart =>
    let absStart := offset + streamStart
    let contentStart ← skipStreamEol data (absStart + streamKeyword.length)
    let content ← slice data contentStart data.length
    match findSubsequence content endKeyword with
    | none => return none
    | some endRel =>
      let contentEnd := contentStart + endRel
      let dictWindow ← slice data (absStart - 512) absStart
      let raw ← slice data contentStart contentEnd
      return some ⟨(findSubsequence dictWindow flateKeyword).isSome, raw, contentEnd⟩

theorem skipStreamEol_ok {pos : Nat} (h : pos ≤ data.length) :
    ∃ start, skipStreamEol data pos = .ok start ∧ pos ≤ start ∧ start ≤ data.length := by
  unfold skipStreamEol
  split
  · rename_i hlt
    rw [CheckedSlice.index_of_lt hlt]
    dsimp only
    split
    · split
      · rename_i hlt'
        rw [CheckedSlice.index_of_lt hlt']
        dsimp only
        split
        · exact ⟨_, rfl, by omega, by omega⟩
        · exact ⟨_, rfl, by omega, by omega⟩
      · exact ⟨_, rfl, by omega, by omega⟩
    · split
      · exact ⟨_, rfl, by omega, by omega⟩
      · exact ⟨_, rfl, by omega, by omega⟩
  · exact ⟨_, rfl, by omega, h⟩

theorem nextStream_ok (h : offset ≤ data.length) :
    ∃ found, nextStream data offset = .ok found ∧
      ∀ stream ∈ found, offset < stream.contentEnd ∧ stream.contentEnd ≤ data.length := by
  unfold nextStream
  rw [CheckedSlice.slice_rest h]
  cases hfind : findSubsequence (data.drop offset) streamKeyword with
  | none =>
    refine ⟨none, ?_, nofun⟩
    simp [hfind, pure, Except.pure, bind, Except.bind]
  | some streamStart =>
    have hlen := Api.length_of_position hfind
    rw [List.length_drop] at hlen
    obtain ⟨contentStart, hskip, hle, hstart⟩ :=
      skipStreamEol_ok (show offset + streamStart + streamKeyword.length ≤ data.length by omega)
    cases hend : findSubsequence (data.drop contentStart) endKeyword with
    | none =>
      refine ⟨none, ?_, nofun⟩
      simp [hfind, hskip, CheckedSlice.slice_rest hstart, hend, pure, Except.pure, bind,
        Except.bind]
    | some endRel =>
      have hkeyword : 0 < streamKeyword.length := by decide
      have hlast := Api.length_of_position hend
      rw [List.length_drop] at hlast
      obtain ⟨dictWindow, hdict⟩ : ∃ window, slice data
          (offset + streamStart - 512) (offset + streamStart) = .ok window :=
        ⟨_, CheckedSlice.slice_ok (Nat.sub_le _ 512) (by omega)⟩
      obtain ⟨raw, hraw⟩ : ∃ bytes, slice data contentStart (contentStart + endRel) =
          .ok bytes := ⟨_, CheckedSlice.slice_ok (by omega) (by omega)⟩
      refine ⟨some ⟨(findSubsequence dictWindow flateKeyword).isSome, raw,
        contentStart + endRel⟩, ?_, ?_⟩
      · simp [hfind, hskip, CheckedSlice.slice_rest hstart, hend, hdict, hraw, pure,
          Except.pure, bind, Except.bind]
      · intro stream hstream
        cases hstream
        dsimp only
        omega

def streamBytes (inflate : List UInt8 → Except String (List UInt8)) (found : FoundStream) :
    Option (List UInt8) :=
  if found.isFlate then (inflate found.raw).toOption else some found.raw

def pushText (allText text : List Char) : List Char :=
  if text = [] then allText else pushLine allText text

theorem nextStream_progress {found : FoundStream} (hoffset : offset < data.length)
    (h : nextStream data offset = .ok (some found)) :
    data.length - found.contentEnd < data.length - offset := by
  obtain ⟨found', hfound, hrange⟩ := nextStream_ok (Nat.le_of_lt hoffset)
  rw [h] at hfound
  cases hfound
  have hend := hrange found rfl
  omega

/-- The loop of `extract_text_from_bytes`. -/
def extractTextFrom (inflate : List UInt8 → Except String (List UInt8)) (data : List UInt8)
    (offset : Nat) (allText : List Char) : Except AccessFault (List Char) :=
  if _hoffset : offset < data.length then
    match _h : nextStream data offset with
    | .error e => .error e
    | .ok none => .ok allText
    | .ok (some found) =>
      match streamBytes inflate found with
      | none => extractTextFrom inflate data found.contentEnd allText
      | some bytes =>
        match extractBtEtText bytes with
        | .error e => .error e
        | .ok text => extractTextFrom inflate data found.contentEnd (pushText allText text)
  else .ok allText
termination_by data.length - offset
decreasing_by all_goals exact nextStream_progress _hoffset _h

def extractTextFromBytes (inflate : List UInt8 → Except String (List UInt8)) (data : List UInt8) :
    Except AccessFault (List Char) :=
  extractTextFrom inflate data 0 []

end DbClinic.Tools
