import DbClinic.Mcp.FramingRoundTrip
import DbClinic.Tools.PdfExtract

/-!
No access of the PDF extraction is out of range or inside a character, for any
bytes and any inflater, but one: the slice between the brackets of an array, on
a line where the last closing bracket comes before the first opening one.
-/

namespace DbClinic.Tools

open List
open CheckedSlice (index slice sliceText isCharBoundary)
open DbClinic.Api (fromUtf8Lossy)
open DbClinic.Mcp (encodeUtf8 encodeUtf8_append utf8EncodeChar_ascii ascii_notMem_utf8EncodeChar)
open DbClinic.Runtime (isWhitespace textLines trimMatches)

theorem octalFrom_ok (bytes : List UInt8) (rounds i octal : Nat) :
    ∃ result, octalFrom bytes rounds i octal = .ok result := by
  induction rounds generalizing i octal with
  | zero => exact ⟨_, rfl⟩
  | succ rounds ih =>
    rw [octalFrom]
    split
    · rename_i hlt
      rw [CheckedSlice.index_of_lt hlt]
      dsimp only
      split
      · apply ih
      · exact ⟨_, rfl⟩
    · exact ⟨_, rfl⟩

theorem unescape_ok (bytes : List UInt8) (i : Nat) (b : UInt8) :
    ∃ result, unescape bytes i b = .ok result := by
  obtain ⟨⟨octal, last⟩, hoctal⟩ := octalFrom_ok bytes 2 i (octalDigit b)
  unfold unescape
  simp only [hoctal]
  repeat' split
  all_goals exact ⟨_, rfl⟩

theorem parenthesizedFrom_ok (bytes : List UInt8) (i : Nat) (depth : Int) (result : List Char) :
    ∃ found, parenthesizedFrom bytes i depth result = .ok found := by
  induction hleft : bytes.length - i using Nat.strong_induction_on generalizing i depth result with
  | _ n ih =>
    have hnext (j : Nat) (hj : i < j) (hi : i < bytes.length) (depth : Int)
        (result : List Char) : ∃ found, parenthesizedFrom bytes j depth result = .ok found :=
      ih (bytes.length - j) (by omega) j depth result rfl
    rw [parenthesizedFrom]
    split
    · rename_i hi
      rw [CheckedSlice.index_of_lt hi]
      dsimp only
      split
      · exact hnext (i + 1) (by omega) hi _ _
      · split
        · split
          · exact ⟨_, rfl⟩
          · exact hnext (i + 1) (by omega) hi _ _
        · split
          · rename_i hescape
            rw [CheckedSlice.index_of_lt hescape.2]
            dsimp only
            obtain ⟨⟨text, last⟩, hunescape⟩ := unescape_ok bytes (i + 1) bytes[i + 1]
            have hlast := unescape_le hunescape
            split
            · rename_i e heq
              rw [hunescape] at heq
              cases heq
            · rename_i text' last' heq
              rw [hunescape] at heq
              cases heq
              exact hnext (last + 1) (by omega) hi _ _
          · exact hnext (i + 1) (by omega) hi _ _
    · exact ⟨_, rfl⟩

theorem extractParenthesizedString_ok (input : List UInt8) :
    ∃ found, extractParenthesizedString input = .ok found := by
  unfold extractParenthesizedString
  split
  · exact ⟨_, rfl⟩
  · apply parenthesizedFrom_ok

theorem tjFrom_ok (inner : List UInt8) (i : Nat) (result : List Char) :
    ∃ text, tjFrom inner i result = .ok text := by
  induction hleft : inner.length - i using Nat.strong_induction_on generalizing i result with
  | _ n ih =>
    have hnext (j : Nat) (hj : i < j) (hi : i < inner.length) (result : List Char) :
        ∃ text, tjFrom inner j result = .ok text :=
      ih (inner.length - j) (by omega) j result rfl
    rw [tjFrom]
    split
    · rename_i hi
      rw [CheckedSlice.index_of_lt hi]
      dsimp only
      split
      · rename_i hopen
        have hboundary : isCharBoundary inner i = true :=
          CheckedSlice.isCharBoundary_of_byte (getElem?_eq_getElem hi) (hopen ▸ rfl)
        have htail : sliceText inner i inner.length = .ok _ :=
          if_pos ⟨Nat.le_of_lt hi, hboundary, CheckedSlice.isCharBoundary_length inner⟩
        rw [htail]
        dsimp only
        obtain ⟨found, hfound⟩ := extractParenthesizedString_ok
          ((inner.take inner.length).drop i)
        rw [hfound]
        cases found with
        | none => exact hnext (i + 1) (by omega) hi _
        | some text =>
          dsimp only
          split
          · rename_i e heq
            rw [CheckedSlice.slice_rest (Nat.le_of_lt hi)] at heq
            cases heq
          · rename_i rest heq
            exact hnext _ (skipGroup_lt (slice_rest_ne_nil hi heq) i) hi _
      · exact hnext (i + 1) (by omega) hi _
    · exact ⟨_, rfl⟩

/-- The last closing bracket of a line comes before its first opening one. -/
def BracketsCrossed (line : List Char) : Prop :=
  ∃ before between after, line = before ++ ']' :: (between ++ '[' :: after) ∧
    '[' ∉ before ∧ '[' ∉ between ∧ ']' ∉ between ∧ ']' ∉ after

section

variable {c : Char}

theorem encodeUtf8_cons (d : Char) (cs : List Char) :
    encodeUtf8 (d :: cs) = String.utf8EncodeChar d ++ encodeUtf8 cs := rfl

theorem toUInt8_toNat (h : c.toNat < 0x80) : c.toUInt8.toNat = c.toNat := by
  have hmod : c.toUInt8.toNat = c.toNat % 2 ^ 8 := UInt32.toNat_toUInt8 c.val
  omega

theorem encodeUtf8_ascii (h : c.toNat < 0x80) : String.utf8EncodeChar c = [c.toUInt8] := by
  rw [utf8EncodeChar_ascii h]
  rfl

variable {cs : List Char}

theorem mem_encodeUtf8_iff (h : c.toNat < 0x80) :
    c.toUInt8 ∈ encodeUtf8 cs ↔ c ∈ cs := by
  constructor
  · intro hmem
    obtain ⟨d, hd, hbyte⟩ := mem_flatMap.mp hmem
    by_contra hnot
    have hne : d.val.toNat ≠ c.toUInt8.toNat := by
      rw [toUInt8_toNat h]
      intro heq
      have hsame : d = c := Char.ext (UInt32.toNat_inj.mp heq)
      exact hnot (hsame ▸ hd)
    exact ascii_notMem_utf8EncodeChar (by rw [toUInt8_toNat h]; exact h) hne hbyte
  · intro hmem
    refine mem_flatMap.mpr ⟨c, hmem, ?_⟩
    rw [encodeUtf8_ascii h]
    exact mem_singleton_self _

/-- `str::find` of an ASCII character. -/
theorem find_encoded (h : c.toNat < 0x80) {before : List Char} (hnot : c ∉ before)
    (after : List Char) :
    (encodeUtf8 (before ++ c :: after)).findIdx? (· = c.toUInt8) =
      some (encodeUtf8 before).length := by
  have hbytes : encodeUtf8 (before ++ c :: after) =
      encodeUtf8 before ++ c.toUInt8 :: encodeUtf8 after := by
    rw [encodeUtf8_append, encodeUtf8_cons, encodeUtf8_ascii h]
    rfl
  have hfront : (encodeUtf8 before).findIdx? (· = c.toUInt8) = none := by
    refine findIdx?_eq_none_iff.mpr fun b hb => decide_eq_false fun heq => ?_
    exact hnot ((mem_encodeUtf8_iff h).mp (heq ▸ hb))
  rw [hbytes, findIdx?_append, hfront, findIdx?_cons]
  simp

theorem find_encoded_none (h : c.toNat < 0x80) (hnot : c ∉ cs) :
    (encodeUtf8 cs).findIdx? (· = c.toUInt8) = none := by
  refine findIdx?_eq_none_iff.mpr fun b hb => decide_eq_false fun heq => ?_
  exact hnot ((mem_encodeUtf8_iff h).mp (heq ▸ hb))

theorem rfind_encoded (h : c.toNat < 0x80) (before : List Char) {after : List Char}
    (hnot : c ∉ after) :
    rfind c.toUInt8 (encodeUtf8 (before ++ c :: after)) = some (encodeUtf8 before).length := by
  have hbytes : (encodeUtf8 (before ++ c :: after)).reverse =
      (encodeUtf8 after).reverse ++ c.toUInt8 :: (encodeUtf8 before).reverse := by
    rw [encodeUtf8_append, encodeUtf8_cons, encodeUtf8_ascii h]
    simp
  have hback : (encodeUtf8 after).reverse.findIdx? (· = c.toUInt8) = none := by
    refine findIdx?_eq_none_iff.mpr fun b hb => decide_eq_false fun heq => ?_
    exact hnot ((mem_encodeUtf8_iff h).mp (heq ▸ mem_reverse.mp hb))
  have hlen := congrArg List.length hbytes
  simp only [length_reverse, length_append, length_cons] at hlen
  unfold rfind
  rw [hbytes, findIdx?_append, hback, findIdx?_cons, hlen]
  simp

theorem rfind_encoded_none (h : c.toNat < 0x80) (hnot : c ∉ cs) :
    rfind c.toUInt8 (encodeUtf8 cs) = none := by
  refine Option.map_eq_none_iff.mpr (findIdx?_eq_none_iff.mpr fun b hb => ?_)
  refine decide_eq_false fun heq => ?_
  exact hnot ((mem_encodeUtf8_iff h).mp (heq ▸ mem_reverse.mp hb))

end

theorem length_encodeUtf8_append (front back : List Char) :
    (encodeUtf8 (front ++ back)).length = (encodeUtf8 front).length + (encodeUtf8 back).length := by
  rw [encodeUtf8_append, length_append]

variable {line : List Char} {c : Char}

theorem encodeUtf8_getElem (h : c.toNat < 0x80) (front back : List Char) :
    (encodeUtf8 (front ++ c :: back))[(encodeUtf8 front).length]? = some c.toUInt8 := by
  rw [encodeUtf8_append, getElem?_append_right (Nat.le_refl _), Nat.sub_self,
    encodeUtf8_cons, encodeUtf8_ascii h]
  rfl

theorem exists_last {cs : List Char} (h : c ∈ cs) :
    ∃ before after, cs = before ++ c :: after ∧ c ∉ after := by
  obtain ⟨after, before, heq, hnot⟩ := eq_append_cons_of_mem (mem_reverse.mpr h)
  refine ⟨before.reverse, after.reverse, ?_, fun hmem => hnot (mem_reverse.mp hmem)⟩
  rw [← reverse_reverse cs, heq]
  simp

theorem BracketsCrossed.fault (h : BracketsCrossed line) :
    ∃ e, extractTjArray (encodeUtf8 line) = .error e := by
  obtain ⟨before, between, after, rfl, hbefore, hbetween, hclose, hafter⟩ := h
  have hopen : (encodeUtf8 (before ++ ']' :: (between ++ '[' :: after))).findIdx?
      (· = '['.toUInt8) = some (encodeUtf8 (before ++ ']' :: between)).length := by
    have hnone : '[' ∉ before ++ ']' :: between := by simp [hbefore, hbetween]
    have hfind := find_encoded (by decide) hnone after
    simpa using hfind
  have hnone : ']' ∉ between ++ '[' :: after := by simp [hclose, hafter]
  have hlast := rfind_encoded (by decide) before hnone
  have hlen := length_encodeUtf8_append before (']' :: between)
  unfold extractTjArray
  rw [hopen, hlast]
  dsimp only
  unfold sliceText
  rw [if_neg fun hbounds => by omega]
  exact ⟨_, rfl⟩

theorem ordered_of_not_crossed {before after front back : List Char} (hnot : ¬ BracketsCrossed line)
    (hfirst : line = before ++ '[' :: after) (hbefore : '[' ∉ before)
    (hlast : line = front ++ ']' :: back) (hback : ']' ∉ back) :
    (encodeUtf8 before).length + 1 ≤ (encodeUtf8 front).length := by
  have hpre : before <+: line := ⟨_, hfirst.symm⟩
  rcases prefix_or_prefix_of_prefix hpre ⟨_, hlast.symm⟩ with
    ⟨middle, hmiddle⟩ | ⟨middle, hmiddle⟩
  · have hrest : '[' :: after = middle ++ ']' :: back := by
      rw [← hmiddle, append_assoc] at hlast
      exact append_cancel_left (hfirst.symm.trans hlast)
    cases middle with
    | nil => cases hrest
    | cons c middle =>
      obtain rfl : '[' = c := (List.cons.inj hrest).1
      have hlen := length_encodeUtf8_append before ('[' :: middle)
      rw [encodeUtf8_cons, encodeUtf8_ascii (by decide)] at hlen
      rw [← hmiddle, hlen]
      simp
  · have hrest : ']' :: back = middle ++ '[' :: after := by
      rw [← hmiddle, append_assoc] at hfirst
      exact append_cancel_left (hlast.symm.trans hfirst)
    cases middle with
    | nil => cases hrest
    | cons c middle =>
      obtain ⟨rfl, htail⟩ := List.cons.inj hrest
      have htail : back = middle ++ '[' :: after := htail
      rw [← hmiddle, mem_append, mem_cons, not_or, not_or] at hbefore
      rw [htail, mem_append, mem_cons, not_or, not_or] at hback
      refine absurd ⟨front, middle, after, ?_, hbefore.1, hbefore.2.2, hback.1,
        hback.2.2⟩ hnot
      rw [hlast, htail]

theorem extractTjArray_ok (hnot : ¬ BracketsCrossed line) :
    ∃ text, extractTjArray (encodeUtf8 line) = .ok text := by
  by_cases hopen : '[' ∈ line
  · by_cases hclose : ']' ∈ line
    · obtain ⟨before, after, hfirst, hbefore⟩ := eq_append_cons_of_mem hopen
      obtain ⟨front, back, hlast, hback⟩ := exists_last hclose
      have hfind : (encodeUtf8 line).findIdx? (· = '['.toUInt8) =
          some (encodeUtf8 before).length := by
        rw [hfirst]
        exact find_encoded (by decide) hbefore after
      have hrfind : rfind ']'.toUInt8 (encodeUtf8 line) = some (encodeUtf8 front).length := by
        rw [hlast]
        exact rfind_encoded (by decide) front hback
      have hstart : isCharBoundary (encodeUtf8 line) ((encodeUtf8 before).length + 1) = true := by
        have hbyte := encodeUtf8_getElem (c := '[') (by decide) before after
        rw [← hfirst] at hbyte
        exact CheckedSlice.isCharBoundary_succ line hbyte (by decide)
      have hstop : isCharBoundary (encodeUtf8 line) (encodeUtf8 front).length = true := by
        have hbyte := encodeUtf8_getElem (c := ']') (by decide) front back
        rw [← hlast] at hbyte
        exact CheckedSlice.isCharBoundary_of_byte hbyte (by decide)
      have hordered := ordered_of_not_crossed hnot hfirst hbefore hlast hback
      have hinner : sliceText (encodeUtf8 line) ((encodeUtf8 before).length + 1)
          (encodeUtf8 front).length = .ok _ := if_pos ⟨hordered, hstart, hstop⟩
      unfold extractTjArray
      rw [hfind, hrfind]
      dsimp only
      rw [hinner]
      apply tjFrom_ok
    · have hnone := rfind_encoded_none (by decide) hclose
      unfold extractTjArray
      rw [hnone]
      cases (encodeUtf8 line).findIdx? (· = '['.toUInt8) <;> exact ⟨_, rfl⟩
  · have hnone := find_encoded_none (by decide) hopen
    unfold extractTjArray
    rw [hnone]
    exact ⟨_, rfl⟩

theorem extractTjArray_ok_iff (line : List Char) :
    (∃ text, extractTjArray (encodeUtf8 line) = .ok text) ↔ ¬ BracketsCrossed line := by
  refine ⟨?_, extractTjArray_ok⟩
  rintro ⟨text, htext⟩ hcrossed
  obtain ⟨e, he⟩ := hcrossed.fault
  rw [htext] at he
  cases he

theorem not_endsWith_both (h : endsWith line "Tj" = true) :
    endsWith line "TJ" = false := by
  obtain ⟨front, hfront⟩ := isSuffixOf_iff_suffix.mp h
  refine Bool.eq_false_iff.mpr fun hboth => ?_
  obtain ⟨front', hfront'⟩ := isSuffixOf_iff_suffix.mp hboth
  have hlast := congrArg List.getLast? (hfront.trans hfront'.symm)
  simp at hlast

def CrossedArrayLine (trimmed : List Char) : Prop :=
  endsWith trimmed "TJ" = true ∧ BracketsCrossed trimmed

theorem showLine_ok_iff (result trimmed : List Char) :
    (∃ next, showLine result trimmed = .ok next) ↔ ¬ CrossedArrayLine trimmed := by
  obtain ⟨found, hfound⟩ := extractParenthesizedString_ok (encodeUtf8 trimmed)
  have harray := extractTjArray_ok_iff trimmed
  unfold showLine CrossedArrayLine
  rw [hfound]
  split
  · rename_i hstring
    rw [not_endsWith_both hstring]
    refine ⟨fun _ => nofun, fun _ => ?_⟩
    cases found <;> exact ⟨_, rfl⟩
  · split
    · rename_i hshow
      rw [not_and, ← harray]
      cases hextract : extractTjArray (encodeUtf8 trimmed) with
      | error e =>
        constructor
        · rintro ⟨next, hnext⟩
          cases hnext
        · intro h
          obtain ⟨text, htext⟩ := h hshow
          cases htext
      | ok text =>
        refine ⟨fun _ _ => ⟨text, rfl⟩, fun _ => ?_⟩
        cases text <;> exact ⟨_, rfl⟩
    · rename_i hother
      refine ⟨fun _ hcrossed => hother hcrossed.1, fun _ => ?_⟩
      split
      · cases found <;> exact ⟨_, rfl⟩
      · exact ⟨_, rfl⟩

def blockLines : List (List Char) → (inBt : Bool) → List (List Char)
  | [], _ => []
  | line :: lines, inBt =>
    let trimmed := trimMatches isWhitespace line
    if trimmed = "BT".toList then blockLines lines true
    else if trimmed = "ET".toList then blockLines lines false
    else if !inBt then blockLines lines inBt
    else trimmed :: blockLines lines inBt

theorem showLines_ok_iff (lines : List (List Char)) (inBt : Bool) (result : List Char) :
    (∃ text, showLines lines inBt result = .ok text) ↔
      ∀ line ∈ blockLines lines inBt, ¬ CrossedArrayLine line := by
  induction lines generalizing inBt result with
  | nil => exact ⟨fun _ => nofun, fun _ => ⟨_, rfl⟩⟩
  | cons line lines ih =>
    rw [showLines, blockLines]
    split
    · apply ih
    · split
      · apply ih
      · split
        · apply ih
        · rw [forall_mem_cons, ← showLine_ok_iff result]
          cases hshow : showLine result (trimMatches isWhitespace line) with
          | error e =>
            constructor
            · rintro ⟨text, htext⟩
              cases htext
            · rintro ⟨⟨next, hnext⟩, -⟩
              cases hnext
          | ok next =>
            dsimp only
            rw [ih]
            exact ⟨fun h => ⟨⟨next, rfl⟩, h⟩, And.right⟩

theorem extractBtEtText_ok_iff (stream : List UInt8) :
    (∃ text, extractBtEtText stream = .ok text) ↔
      ∀ line ∈ blockLines (textLines (fromUtf8Lossy stream)) false, ¬ CrossedArrayLine line :=
  showLines_ok_iff _ _ _

section

variable (inflate : List UInt8 → Except String (List UInt8)) (data : List UInt8)

/-- The bytes of the streams behind `offset` that can be inflated. -/
def contentStreams (offset : Nat) : List (List UInt8) :=
  if _hoffset : offset < data.length then
    match _h : nextStream data offset with
    | .ok (some found) => (streamBytes inflate found).toList ++ contentStreams found.contentEnd
    | _ => []
  else []
termination_by data.length - offset
decreasing_by exact nextStream_progress _hoffset _h

theorem extractTextFrom_ok_iff (offset : Nat) (allText : List Char) :
    (∃ text, extractTextFrom inflate data offset allText = .ok text) ↔
      ∀ bytes ∈ contentStreams inflate data offset,
        ∀ line ∈ blockLines (textLines (fromUtf8Lossy bytes)) false, ¬ CrossedArrayLine line := by
  induction hleft : data.length - offset using Nat.strong_induction_on
    generalizing offset allText with
  | _ n ih =>
    rw [extractTextFrom, contentStreams]
    split
    · rename_i hoffset
      obtain ⟨found, hfound, -⟩ := nextStream_ok (Nat.le_of_lt hoffset)
      split
      · rename_i e heq
        rw [hfound] at heq
        cases heq
      · rename_i heq
        rw [heq]
        exact ⟨fun _ => forall_mem_nil _, fun _ => ⟨_, rfl⟩⟩
      · rename_i stream heq
        have hnext (allText : List Char) := ih (data.length - stream.contentEnd)
          (hleft ▸ nextStream_progress hoffset heq) stream.contentEnd allText rfl
        rw [heq]
        dsimp only
        cases hbytes : streamBytes inflate stream with
        | none => exact hnext allText
        | some bytes =>
          dsimp only [Option.toList]
          rw [forall_mem_append, forall_mem_singleton, ← extractBtEtText_ok_iff]
          cases hshow : extractBtEtText bytes with
          | error e =>
            constructor
            · rintro ⟨text, htext⟩
              cases htext
            · rintro ⟨⟨text, htext⟩, -⟩
              cases htext
          | ok text =>
            dsimp only
            rw [hnext]
            exact ⟨fun h => ⟨⟨text, rfl⟩, h⟩, And.right⟩
    · exact ⟨fun _ => forall_mem_nil _, fun _ => ⟨_, rfl⟩⟩

/-- The extraction ends, with every access in range and on character boundaries,
exactly if no line in a text block of a content stream shows an array whose
brackets are crossed. -/
theorem extractTextFromBytes_ok_iff :
    (∃ text, extractTextFromBytes inflate data = .ok text) ↔
      ∀ bytes ∈ contentStreams inflate data 0,
        ∀ line ∈ blockLines (textLines (fromUtf8Lossy bytes)) false, ¬ CrossedArrayLine line :=
  extractTextFrom_ok_iff inflate data 0 []

end

/-- A content stream with such a line. -/
def crossedStream : List UInt8 := encodeUtf8 "BT\n] [ TJ\nET\n".toList

def crossedFile : List UInt8 :=
  encodeUtf8 "stream\n".toList ++ crossedStream ++ encodeUtf8 "endstream".toList

theorem crossed_brackets_fault :
    ¬ ∀ (inflate : List UInt8 → Except String (List UInt8)) (data : List UInt8),
      ∃ text, extractTextFromBytes inflate data = .ok text := by
  intro h
  let inflate : List UInt8 → Except String (List UInt8) := fun _ => .error "not deflated"
  have hstream : nextStream crossedFile 0 = .ok (some ⟨false, crossedStream, 20⟩) := by
    have hfound : (nextStream crossedFile 0).toOption =
        some (some ⟨false, crossedStream, 20⟩) := by decide +kernel
    cases hnext : nextStream crossedFile 0 with
    | error e =>
      rw [hnext] at hfound
      cases hfound
    | ok found =>
      rw [hnext] at hfound
      cases hfound
      rfl
  have hmem : crossedStream ∈ contentStreams inflate crossedFile 0 := by
    rw [contentStreams, dif_pos (by decide)]
    split
    · rename_i found heq
      rw [hstream] at heq
      cases heq
      exact mem_append_left _ (mem_singleton_self _)
    · rename_i hnone
      exact absurd hstream (hnone _)
  have hlines : blockLines (textLines (fromUtf8Lossy crossedStream)) false =
      ["] [ TJ".toList] := by decide +kernel
  have hsafe := (extractTextFrom_ok_iff inflate crossedFile 0 []).mp (h inflate crossedFile)
    crossedStream hmem "] [ TJ".toList (hlines ▸ mem_singleton_self _)
  refine hsafe ⟨by decide +kernel, [], [' '], " TJ".toList, ?_, ?_, ?_, ?_, ?_⟩ <;> decide

end DbClinic.Tools
