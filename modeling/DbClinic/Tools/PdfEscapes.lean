import DbClinic.Api.Utf8Lossy
import DbClinic.Tools.PdfStrings

/-!
The lines of text operators. The string of a `Tj` line comes back exactly if it
is ASCII. The strings of a `TJ` line come back if they are ASCII and the counter
of the array ends in place for each of them; any other string spoils some array
of strings that come back.
-/

namespace DbClinic.Tools

open List
open DbClinic.Api (fromUtf8Lossy)
open DbClinic.Mcp (encodeUtf8 encodeUtf8_append)
open DbClinic.Runtime (isWhitespace stripSuffix stripSuffix_eq_some textLines trimMatches
  trim_of_ends)

/-- `(text) Tj`. -/
def stringLine (text : List Char) : List Char := '(' :: (escape text ++ ") Tj".toList)

def shown (line : List Char) : Except AccessFault (List Char) :=
  extractBtEtText (encodeUtf8 ("BT\n".toList ++ (line ++ "\nET".toList)))

variable {line : List Char} {items : List (List Char × List Char)}

theorem textLines_block (hbreak : '\n' ∉ line) (hreturn : line.getLast? ≠ some '\r') :
    textLines ("BT\n".toList ++ (line ++ "\nET".toList)) = ["BT".toList, line, "ET".toList] := by
  have hclean {part : List Char} (hpart : '\n' ∉ part) : ∀ c ∈ part, decide (c = '\n') = false :=
    fun c hc => decide_eq_false fun heq => hpart (heq ▸ hc)
  have hrest := splitOnP_append_cons_of_forall_mem (hclean hbreak) '\n' (by decide)
    "ET".toList
  have hwhole := splitOnP_append_cons_of_forall_mem
    (hclean (show '\n' ∉ "BT".toList by decide)) '\n' (by decide) (line ++ "\nET".toList)
  have hsplit : ("BT\n".toList ++ (line ++ "\nET".toList)).splitOnP (fun c => decide (c = '\n')) =
      ["BT".toList, line] ++ ["ET".toList] :=
    hwhole.trans (congrArg ("BT".toList :: ·) hrest)
  have hkeep : stripSuffix ['\r'] line = none := by
    cases hstrip : stripSuffix ['\r'] line with
    | none => rfl
    | some front =>
      rw [stripSuffix_eq_some hstrip] at hreturn
      exact absurd (getLast?_concat ..) hreturn
  have hfirst : stripSuffix ['\r'] "BT".toList = none := rfl
  unfold textLines
  simp only [hsplit, getLast?_concat, dropLast_concat, map_cons, map_nil,
    hfirst, hkeep, Option.getD_none]
  rfl

theorem shown_eq (first last : Char) (hhead : line.head? = some first)
    (hlast : line.getLast? = some last) (hfirst : isWhitespace first = false)
    (hend : isWhitespace last = false) (hbreak : '\n' ∉ line) (hbt : line ≠ "BT".toList)
    (het : line ≠ "ET".toList) : shown line = showLine [] line := by
  have hreturn : line.getLast? ≠ some '\r' := by
    rw [hlast]
    rintro heq
    cases heq
    exact absurd hend (by decide)
  have htrim : trimMatches isWhitespace line = line :=
    trim_of_ends (by simpa [hhead] using hfirst) (by simpa [hlast] using hend)
  have hblock : trimMatches isWhitespace "BT".toList = "BT".toList := by decide
  have hover : trimMatches isWhitespace "ET".toList = "ET".toList := by decide
  have hother : "ET".toList ≠ "BT".toList := by decide
  unfold shown extractBtEtText
  have htext := Api.fromUtf8Lossy_encoded ("BT\n".toList ++ (line ++ "\nET".toList))
  rw [encodeUtf8, htext, textLines_block hbreak hreturn]
  simp only [showLines, hblock, hover, htrim, hbt, het, hother, if_true, if_false]
  cases showLine [] line <;> rfl

variable {text gap : List Char}

theorem newline_notMem_escape (h : '\n' ∉ text) : '\n' ∉ escape text := by
  rw [mem_escape_iff (by decide)]
  exact h

theorem shown_stringLine (hbreak : '\n' ∉ text) :
    shown (stringLine text) = .ok (bytewise text) := by
  have hlast : (stringLine text).getLast? = some 'j' := by
    have hsplit : stringLine text = ('(' :: (escape text ++ ") T".toList)) ++ ['j'] := by
      simp [stringLine]
    rw [hsplit, getLast?_concat]
  have hnewline : '\n' ∉ stringLine text := by
    simp [stringLine, newline_notMem_escape hbreak]
  have hends : endsWith (stringLine text) "Tj" = true := by
    refine isSuffixOf_iff_suffix.mpr ⟨'(' :: (escape text ++ ") ".toList), ?_⟩
    simp [stringLine]
  have hbytes : encodeUtf8 (stringLine text) = groupBytes text ++ encodeUtf8 " Tj".toList := by
    have hitem := bytes_arrayItem (text, " Tj".toList)
    exact hitem
  rw [shown_eq '(' 'j' rfl hlast (by decide) (by decide) hnewline (by simp [stringLine])
    (by simp [stringLine])]
  unfold showLine
  rw [if_pos hends, hbytes, extractParenthesizedString_group]
  rfl

theorem shown_arrayLine (hbreak : ∀ item ∈ items, '\n' ∉ item.1)
    (hgap : ∀ item ∈ items, ∀ c ∈ item.2, isGapChar c = true) :
    shown (arrayLine items) = tjFrom (encodeUtf8 (' ' :: items.flatMap arrayItem)) 0 [] := by
  have hsplit : arrayLine items = ("[ ".toList ++ items.flatMap arrayItem ++ "] T".toList) ++
      ['J'] := by simp [arrayLine]
  have hlast : (arrayLine items).getLast? = some 'J' := by rw [hsplit, getLast?_concat]
  have hnewline : '\n' ∉ arrayLine items := by
    have hitems : '\n' ∉ items.flatMap arrayItem := by
      rw [mem_flatMap]
      rintro ⟨item, hitem, hmem⟩
      have hclean := newline_notMem_escape (hbreak item hitem)
      simp only [arrayItem, mem_cons, mem_append, hclean] at hmem
      rcases hmem with h | h | h | h
      · cases h
      · exact h
      · cases h
      · exact absurd (hgap item hitem '\n' h) (by decide)
    simp [arrayLine, hitems]
  have hends : endsWith (arrayLine items) "TJ" = true := by
    refine isSuffixOf_iff_suffix.mpr ⟨"[ ".toList ++ items.flatMap arrayItem ++
      "] ".toList, ?_⟩
    simp [arrayLine]
  have hother : endsWith (arrayLine items) "Tj" = false :=
    Bool.eq_false_iff.mpr fun h => by simp [not_endsWith_both h] at hends
  rw [shown_eq '[' 'J' rfl hlast (by decide) (by decide) hnewline (by simp [arrayLine])
    (by simp [arrayLine])]
  unfold showLine
  rw [hother, if_neg Bool.false_ne_true, if_pos hends, extractTjArray_arrayLine]
  cases tjFrom (encodeUtf8 (' ' :: items.flatMap arrayItem)) 0 [] with
  | error e => rfl
  | ok text => cases text <;> rfl

/-- Every character is one byte. -/
def IsAscii (text : List Char) : Prop := ∀ c ∈ text, c.toNat < 0x80

theorem bytewise_of_ascii (h : IsAscii text) : bytewise text = text := by
  induction text with
  | nil => rfl
  | cons c text ih =>
    have hc := h c mem_cons_self
    have hchar : charFrom c.toUInt8 = c := by
      unfold charFrom
      rw [toUInt8_toNat hc]
      exact Char.ofNat_toNat c
    rw [bytewise_cons, encodeUtf8_ascii hc, ih fun d hd => h d (mem_cons_of_mem c hd)]
    simp [hchar]

theorem length_le_bytewise (text : List Char) : text.length ≤ (bytewise text).length := by
  induction text with
  | nil => exact Nat.le_refl _
  | cons c text ih =>
    have hpos : 0 < (String.utf8EncodeChar c).length :=
      length_pos_iff.mpr String.utf8EncodeChar_ne_nil
    rw [bytewise_cons, length_append, length_map, length_cons]
    omega

theorem length_bytewise_of_not_ascii (h : ¬ IsAscii text) :
    text.length < (bytewise text).length := by
  induction text with
  | nil => exact absurd (fun c hc => absurd hc not_mem_nil) h
  | cons c text ih =>
    have hrest := length_le_bytewise text
    rw [bytewise_cons, length_append, length_map, length_cons]
    rcases CheckedSlice.utf8EncodeChar_cases c with ⟨b, hb, hbytes⟩ |
        ⟨first, more, hbytes, -, hmore, -⟩
    · have hc : c.toNat < 0x80 := by
        by_contra hlarge
        have hsize := String.length_utf8EncodeChar c
        rw [hbytes] at hsize
        have hone := Char.utf8Size_eq_one_iff.mp hsize.symm
        exact hlarge (Nat.lt_succ_of_le (UInt32.le_iff_toNat_le.mp hone))
      have hnot : ¬ IsAscii text := by
        intro htext
        refine h fun d hd => ?_
        rcases mem_cons.mp hd with rfl | hd
        · exact hc
        · exact htext d hd
      have hlonger := ih hnot
      rw [hbytes, length_singleton]
      omega
    · have hpos := length_pos_iff.mpr hmore
      rw [hbytes, length_cons]
      omega

theorem bytewise_eq_iff : bytewise text = text ↔ IsAscii text := by
  refine ⟨fun h => ?_, bytewise_of_ascii⟩
  by_contra hnot
  have hlonger := length_bytewise_of_not_ascii hnot
  rw [h] at hlonger
  omega

/-- Texts without line breaks, with nothing but numbers and blanks between them. -/
def IsArray (items : List (List Char × List Char)) : Prop :=
  ∀ item ∈ items, '\n' ∉ item.1 ∧ ∀ c ∈ item.2, isGapChar c = true

/-- The texts come back from the line of their array, and each from a line of its own. -/
def ReadBack (items : List (List Char × List Char)) : Prop :=
  shown (arrayLine items) = .ok (items.flatMap Prod.fst) ∧
    ∀ item ∈ items, shown (stringLine item.1) = .ok item.1

/-- The decoder and the counter are right about a text. -/
def Readable (text : List Char) : Prop := IsAscii text ∧ InPlace text

theorem readBack_of_readable (harray : IsArray items) (h : ∀ item ∈ items, Readable item.1) :
    ReadBack items := by
  constructor
  · rw [shown_arrayLine (fun item hitem => (harray item hitem).1)
      fun item hitem => (harray item hitem).2]
    have hstart : (encodeUtf8 (' ' :: items.flatMap arrayItem)).drop 0 =
        [' '.toUInt8] ++ encodeUtf8 (items.flatMap arrayItem) := rfl
    rw [tjFrom_plains hstart (by decide), tjFrom_items (fun item hitem => (h item hitem).2)
      (fun item hitem => (harray item hitem).2) (drop_add_of_drop hstart), nil_append]
    refine congrArg Except.ok ?_
    refine flatMap_congr fun item hitem => ?_
    exact bytewise_of_ascii (h item hitem).1
  · intro item hitem
    rw [shown_stringLine (harray item hitem).1, bytewise_of_ascii (h item hitem).1]

theorem prefix_of_tjFrom (inner : List UInt8) (i : Nat) {result : List Char}
    (h : tjFrom inner i result = .ok text) : result <+: text := by
  induction hleft : inner.length - i using Nat.strong_induction_on generalizing i result with
  | _ n ih =>
    have hnext (j : Nat) (hj : i < j) (hi : i < inner.length) {longer : List Char}
        (hlonger : tjFrom inner j longer = .ok text) : longer <+: text :=
      ih (inner.length - j) (by omega) j hlonger rfl
    rw [tjFrom] at h
    split at h
    · rename_i hi
      rw [CheckedSlice.index_of_lt hi] at h
      dsimp only at h
      split at h
      · split at h
        · cases h
        · split at h
          · cases h
          · exact hnext (i + 1) (by omega) hi h
          · split at h
            · cases h
            · rename_i rest heq
              have hread := hnext _ (skipGroup_lt (slice_rest_ne_nil hi heq) i) hi h
              exact (prefix_append _ _).trans hread
      · exact hnext (i + 1) (by omega) hi h
    · cases h
      exact prefix_refl _

theorem tjFrom_first (text gap : List Char) (others : List (List Char × List Char)) :
    tjFrom (encodeUtf8 (' ' :: ((text, gap) :: others).flatMap arrayItem)) 0 [] =
      tjFrom (encodeUtf8 (' ' :: ((text, gap) :: others).flatMap arrayItem))
        (skipGroup (groupBytes text ++ encodeUtf8 (gap ++ others.flatMap arrayItem)) 1 0)
        (bytewise text) := by
  have hstart : (encodeUtf8 (' ' :: ((text, gap) :: others).flatMap arrayItem)).drop 0 =
      [' '.toUInt8] ++ (groupBytes text ++ encodeUtf8 (gap ++ others.flatMap arrayItem)) := by
    rw [flatMap_cons, encodeUtf8_cons, encodeUtf8_append, bytes_arrayItem, encodeUtf8_append,
      append_assoc]
    rfl
  rw [tjFrom_plains hstart (by decide), tjFrom_group (drop_add_of_drop hstart)]
  rfl

theorem not_readBack_of_not_ascii (harray : IsArray [(text, gap)]) (h : ¬ IsAscii text) :
    ¬ ReadBack [(text, gap)] := by
  rintro ⟨-, hstring⟩
  have hitem := hstring (text, gap) (mem_singleton_self _)
  rw [shown_stringLine (harray _ (mem_singleton_self _)).1] at hitem
  exact h (bytewise_eq_iff.mp (Except.ok.inj hitem))

theorem skipGroup_letter (i depth : Nat) :
    skipGroup (encodeUtf8 "(a) ".toList) i (depth + 1) =
      i + (encodeUtf8 "(a) ".toList).length := by
  have hbytes : encodeUtf8 "(a) ".toList = groupBytes ['a'] ++ [' '.toUInt8] := by decide
  have hletter : nesting (depth + 1) ['a'] = some (depth + 1) := rfl
  have hgroup : groupBytes ['a'] ++ [' '.toUInt8] = '('.toUInt8 ::
      (encodeUtf8 (escape ['a']) ++ [')'.toUInt8, ' '.toUInt8]) := by decide
  have hother : ')'.toUInt8 ≠ '('.toUInt8 := by decide
  have hblank : [' '.toUInt8] ++ [] = [' '.toUInt8] := rfl
  rw [hbytes, hgroup, skipGroup, if_pos rfl, skipGroup_escape hletter, skipGroup, if_neg hother,
    if_pos rfl, if_neg (by omega), ← hblank, skipGroup_plains _ _ _ (by decide) (by decide)]
  rfl

theorem not_readBack_of_open {deeper : Nat} (harray : IsArray [(text, gap), (['a'], [' '])])
    (hopen : nesting 0 text = some (deeper + 1)) :
    ¬ ReadBack [(text, gap), (['a'], [' '])] := by
  rintro ⟨hshown, hstring⟩
  have hgap : ∀ c ∈ gap, isGapChar c = true := (harray (text, gap) mem_cons_self).2
  have hitem := hstring (text, gap) mem_cons_self
  rw [shown_stringLine (harray (text, gap) mem_cons_self).1] at hitem
  have hascii := Except.ok.inj hitem
  dsimp only at hascii
  have hclose : ')'.toUInt8 ∉ encodeUtf8 gap := by
    rw [mem_encodeUtf8_iff (by decide)]
    intro hmem
    exact absurd (hgap ')' hmem) (by decide)
  have hskip (i : Nat) : skipGroup (groupBytes text ++ encodeUtf8 (gap ++ "(a) ".toList)) i 0 =
      i + (groupBytes text ++ encodeUtf8 (gap ++ "(a) ".toList)).length := by
    rw [skipGroup_open hopen, encodeUtf8_append,
      skipGroup_plains _ _ _ (open_notMem_gap hgap) hclose]
    rw [skipGroup_letter, length_append, length_append]
    omega
  rw [shown_arrayLine (fun item hitem => (harray item hitem).1)
    fun item hitem => (harray item hitem).2, tjFrom_first, hascii] at hshown
  have hother : [(['a'], [' '])].flatMap arrayItem = "(a) ".toList := by decide
  rw [hother, hskip] at hshown
  have hend : (encodeUtf8 (' ' :: [(text, gap), (['a'], [' '])].flatMap arrayItem)).length =
      1 + (groupBytes text ++ encodeUtf8 (gap ++ "(a) ".toList)).length := by
    rw [flatMap_cons, hother, encodeUtf8_cons, encodeUtf8_append, bytes_arrayItem,
      encodeUtf8_append, encodeUtf8_ascii (by decide), append_assoc, length_append]
    rfl
  rw [tjFrom, dif_neg (by omega)] at hshown
  have hlen := congrArg List.length (Except.ok.inj hshown)
  simp at hlen

theorem not_readBack_of_reopened {front kept more : List Char}
    (harray : IsArray [(front ++ ')' :: (kept ++ '(' :: more), gap)])
    (hfront : nesting 0 front = some 0) (hkept : '(' ∉ kept) (hmore : more ≠ []) :
    ¬ ReadBack [(front ++ ')' :: (kept ++ '(' :: more), gap)] := by
  rintro ⟨hshown, hstring⟩
  have hitem := hstring _ (mem_singleton_self _)
  rw [shown_stringLine (harray _ (mem_singleton_self _)).1] at hitem
  have hascii := Except.ok.inj hitem
  dsimp only at hascii
  rw [shown_arrayLine (fun item hitem => (harray item hitem).1)
    fun item hitem => (harray item hitem).2] at hshown
  have hstart : (encodeUtf8 (' ' ::
      [(front ++ ')' :: (kept ++ '(' :: more), gap)].flatMap arrayItem)).drop 0 =
        [' '.toUInt8] ++ (groupBytes (front ++ ')' :: (kept ++ '(' :: more)) ++
          encodeUtf8 gap) := by
    rw [flatMap_singleton, encodeUtf8_cons, bytes_arrayItem, encodeUtf8_ascii (by decide)]
    rfl
  rw [tjFrom_plains hstart (by decide)] at hshown
  obtain ⟨j, hread, hnext, -⟩ := tjFrom_early [] hfront (drop_add_of_drop hstart)
  have hgroup : encodeUtf8 (escape (kept ++ '(' :: more)) ++ ')'.toUInt8 :: encodeUtf8 gap =
      (encodeUtf8 (escape kept) ++ ['\\'.toUInt8]) ++ (groupBytes more ++ encodeUtf8 gap) := by
    rw [escape_append, encodeUtf8_append, escape_cons]
    simp [groupBytes, needsEscape, encodeUtf8_cons, encodeUtf8_ascii]
  rw [hgroup] at hnext
  have hplain : '('.toUInt8 ∉ encodeUtf8 (escape kept) ++ ['\\'.toUInt8] := by
    simp only [mem_append, mem_singleton, not_or]
    exact ⟨open_notMem_escape hkept, by decide⟩
  rw [hread, nil_append, hascii, tjFrom_plains hnext hplain,
    tjFrom_group (drop_add_of_drop hnext)] at hshown
  have hlonger := (prefix_of_tjFrom _ _ hshown).length_le
  have hpos := length_pos_iff.mpr hmore
  have htwice := length_le_bytewise more
  rw [length_append, flatMap_singleton] at hlonger
  dsimp only at hlonger
  omega

theorem not_readable_cases (h : ¬ InPlace text) :
    (∃ deeper, nesting 0 text = some (deeper + 1)) ∨
      ∃ front kept more, text = front ++ ')' :: (kept ++ '(' :: more) ∧
        nesting 0 front = some 0 ∧ '(' ∉ kept ∧ more ≠ [] := by
  cases hnesting : nesting 0 text with
  | some depth =>
    cases depth with
    | zero => exact absurd (.inl hnesting) h
    | succ deeper => exact .inl ⟨deeper, rfl⟩
  | none =>
    obtain ⟨front, back, rfl, hfront⟩ := exists_early_close hnesting
    have hback : '(' ∈ back.dropLast := by
      by_contra hnot
      exact h (.inr ⟨front, back, rfl, hfront, hnot⟩)
    obtain ⟨kept, more, hmore, hkept⟩ := eq_append_cons_of_mem hback
    have hne : back ≠ [] := by
      rintro rfl
      cases hback
    have hsplit := dropLast_append_getLast hne
    rw [hmore, append_assoc] at hsplit
    exact .inr ⟨front, kept, more ++ [back.getLast hne],
      congrArg (front ++ ')' :: ·) hsplit.symm, hfront, hkept, by simp⟩

theorem exists_not_readBack (hbreak : '\n' ∉ text) (hgap : ∀ c ∈ gap, isGapChar c = true)
    (h : ¬ Readable text) :
    ∃ others, IsArray ((text, gap) :: others) ∧ (∀ item ∈ others, Readable item.1) ∧
      ¬ ReadBack ((text, gap) :: others) := by
  have hsingle : IsArray [(text, gap)] := by
    intro item hitem
    obtain rfl := mem_singleton.mp hitem
    exact ⟨hbreak, hgap⟩
  by_cases hascii : IsAscii text
  · have hplace : ¬ InPlace text := fun hplace => h ⟨hascii, hplace⟩
    rcases not_readable_cases hplace with ⟨deeper, hdeeper⟩ |
        ⟨front, kept, more, rfl, hfront, hkept, hmore⟩
    · have harray : IsArray [(text, gap), (['a'], [' '])] := by
        intro item hitem
        rcases mem_cons.mp hitem with rfl | hitem
        · exact ⟨hbreak, hgap⟩
        · obtain rfl := mem_singleton.mp hitem
          exact ⟨by decide, forall_mem_singleton.mpr (by decide)⟩
      refine ⟨_, harray, ?_, not_readBack_of_open harray hdeeper⟩
      intro item hitem
      obtain rfl := mem_singleton.mp hitem
      exact ⟨forall_mem_singleton.mpr (by decide), .inl rfl⟩
    · exact ⟨[], hsingle, nofun, not_readBack_of_reopened hsingle hfront hkept hmore⟩
  · exact ⟨[], hsingle, nofun, not_readBack_of_not_ascii hsingle hascii⟩

/-- A string line shows its text exactly if that is ASCII. An array and its
texts come back if these are ASCII and the counter ends in place for each, and
no other text comes back among all such texts. -/
theorem strings_read_back (text gap : List Char) :
    ('\n' ∉ text → (shown (stringLine text) = .ok text ↔ IsAscii text)) ∧
    (∀ items, IsArray items → (∀ item ∈ items, Readable item.1) → ReadBack items) ∧
    ('\n' ∉ text → (∀ c ∈ gap, isGapChar c = true) →
      (Readable text ↔ ∀ others, IsArray ((text, gap) :: others) →
        (∀ item ∈ others, Readable item.1) → ReadBack ((text, gap) :: others))) := by
  refine ⟨fun hbreak => ?_, fun items => readBack_of_readable, fun hbreak hgap => ?_⟩
  · rw [shown_stringLine hbreak, ← bytewise_eq_iff, Except.ok.injEq]
  · constructor
    · intro htext others harray hothers
      apply readBack_of_readable harray
      intro item hitem
      rcases mem_cons.mp hitem with rfl | hitem
      · exact htext
      · exact hothers item hitem
    · intro hall
      by_contra hnot
      obtain ⟨others, harray, hothers, hspoiled⟩ := exists_not_readBack hbreak hgap hnot
      exact hspoiled (hall others harray hothers)

/-- Balanced parentheses come back. -/
theorem balanced_read_back :
    ReadBack [("f(x)".toList, " -120 ".toList), ("\\".toList, " ".toList)] := by
  refine (strings_read_back [] []).2.1 _ ?_ ?_
  · simp only [IsArray, forall_mem_cons]
    exact ⟨⟨by decide, all_eq_true.mp (by decide)⟩, ⟨by decide, all_eq_true.mp (by decide)⟩, nofun⟩
  · simp only [forall_mem_cons, Readable, IsAscii, InPlace]
    have hascii : ∀ text ∈ ["f(x)".toList, "\\".toList],
        (text.all fun c => decide (c.toNat < 0x80)) = true := by decide
    simp only [forall_mem_cons, all_eq_true, decide_eq_true_eq] at hascii
    exact ⟨⟨hascii.1, .inl rfl⟩, ⟨hascii.2.1, .inl rfl⟩, nofun⟩

/-- A character of two bytes is read as two. -/
theorem accent_not_read_back :
    ¬ ∀ items : List (List Char × List Char), IsArray items → ReadBack items := by
  intro h
  have harray : IsArray [(['é'], [' '])] := by
    exact forall_mem_singleton.mpr ⟨by decide, forall_mem_singleton.mpr (by decide)⟩
  refine not_readBack_of_not_ascii harray (fun hascii => ?_) (h _ harray)
  exact absurd (hascii 'é' mem_cons_self) (by decide)

end DbClinic.Tools
