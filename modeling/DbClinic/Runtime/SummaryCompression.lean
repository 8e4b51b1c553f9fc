import DbClinic.Lib.Occurrences
import DbClinic.Lib.GreedySelection
import DbClinic.Runtime.JsonRoundTrip
import DbClinic.Runtime.SummaryLines
import DbClinic.Runtime.Trim

/-!
The compression of a summary to a budget of lines and characters. The lines are normalized,
the repeated ones removed, and the more important ones kept first.
-/

namespace DbClinic.Runtime

open FirstOccurrences GreedySelection List

structure SummaryCompressionBudget where
  maxChars : Nat
  maxLines : Nat
  maxLineChars : Nat
  deriving DecidableEq

structure SummaryCompressionResult where
  summary : List Char
  originalChars : Nat
  compressedChars : Nat
  originalLines : Nat
  compressedLines : Nat
  removedDuplicateLines : Nat
  omittedLines : Nat
  truncated : Bool
  deriving DecidableEq

def collapseInlineWhitespace (line : List Char) : List Char :=
  [' '].intercalate (splitWhitespace line)

def truncateLine (line : List Char) (maxChars : Nat) : List Char :=
  if maxChars = 0 ∨ line.length ≤ maxChars then line
  else if maxChars = 1 then ['…']
  else line.take (maxChars - 1) ++ ['…']

/-- `to_ascii_lowercase` of the line. -/
def dedupeKey (line : List Char) : List Char := line.map Char.toLower

structure NormalizedSummary where
  lines : List (List Char)
  removedDuplicateLines : Nat

/-- The loop of `normalize_lines`, with the keys seen so far. -/
def normalizeFrom (maxLineChars : Nat) (seen : List (List Char)) :
    List (List Char) → NormalizedSummary
  | [] => ⟨[], 0⟩
  | rawLine :: rest =>
    let normalized := collapseInlineWhitespace rawLine
    if normalized = [] then normalizeFrom maxLineChars seen rest
    else
      let truncated := truncateLine normalized maxLineChars
      if seen.contains (dedupeKey truncated) then
        let later := normalizeFrom maxLineChars seen rest
        { later with removedDuplicateLines := later.removedDuplicateLines + 1 }
      else
        let later := normalizeFrom maxLineChars (dedupeKey truncated :: seen) rest
        { later with lines := truncated :: later.lines }

def normalizeLines (summary : List Char) (maxLineChars : Nat) : NormalizedSummary :=
  normalizeFrom maxLineChars [] (textLines summary)

def joinedCharCount (lines : List (List Char)) : Nat :=
  (lines.map List.length).sum + (lines.length - 1)

def coreDetails : List String :=
  ["- Scope:", "- Current work:", "- Pending work:", "- Key files referenced:",
    "- Tools mentioned:", "- Recent user requests:", "- Previously compacted context:",
    "- Newly compacted context:"]

def isCoreDetail (line : List Char) : Bool :=
  coreDetails.any fun start => start.toList.isPrefixOf line

def isSectionHeader (line : List Char) : Bool := [':'].isSuffixOf line

def linePriority (line : List Char) : Nat :=
  if line = "Summary:".toList ∨ line = "Conversation summary:".toList ∨ isCoreDetail line then 0
  else if isSectionHeader line then 1
  else if "- ".toList.isPrefixOf line ∨ "  - ".toList.isPrefixOf line then 2
  else 3

def withinBudget (budget : SummaryCompressionBudget) (lines : List (List Char)) : Bool :=
  decide (lines.length ≤ budget.maxLines) && decide (joinedCharCount lines ≤ budget.maxChars)

def lineAt (lines : List (List Char)) (index : Nat) : List Char := lines.getD index []

/-- The loops of `select_line_indexes`; the selected indexes are in their order. -/
def selectLineIndexes (lines : List (List Char)) (budget : SummaryCompressionBudget) : List Nat :=
  (List.range 4).foldl (fun selected priority =>
    lines.zipIdx.foldl (fun selected e =>
      if e.2 ∈ selected ∨ linePriority e.1 ≠ priority then selected
      else
        let candidate := selected.map (lineAt lines) ++ [e.1]
        if budget.maxLines < candidate.length then selected
        else if budget.maxChars < joinedCharCount candidate then selected
        else selected.orderedInsert (· ≤ ·) e.2) selected) []

def pushLineWithBudget (lines : List (List Char)) (line : List Char)
    (budget : SummaryCompressionBudget) : List (List Char) :=
  if withinBudget budget (lines ++ [line]) then lines ++ [line] else lines

def omissionNotice (omittedLines : Nat) : List Char :=
  "- … ".toList ++ Nat.toDigits 10 omittedLines ++ " additional line(s) omitted.".toList

def compressSummary (summary : List Char) (budget : SummaryCompressionBudget) :
    SummaryCompressionResult :=
  let originalChars := summary.length
  let originalLines := (textLines summary).length
  let normalized := normalizeLines summary budget.maxLineChars
  match normalized.lines with
  | [] =>
    ⟨[], originalChars, 0, originalLines, 0, normalized.removedDuplicateLines,
      normalized.lines.length, decide (0 < originalChars)⟩
  | first :: _ =>
    if budget.maxChars = 0 ∨ budget.maxLines = 0 then
      ⟨[], originalChars, 0, originalLines, 0, normalized.removedDuplicateLines,
        normalized.lines.length, decide (0 < originalChars)⟩
    else
      let selected := (selectLineIndexes normalized.lines budget).map (lineAt normalized.lines)
      let kept := if selected = [] then [truncateLine first budget.maxChars] else selected
      let omittedLines := normalized.lines.length - kept.length
      let compressedLines :=
        if 0 < omittedLines then pushLineWithBudget kept (omissionNotice omittedLines) budget
        else kept
      let compressedSummary := ['\n'].intercalate compressedLines
      ⟨compressedSummary, originalChars, compressedSummary.length, originalLines,
        compressedLines.length, normalized.removedDuplicateLines, omittedLines,
        decide (compressedSummary ≠ trim summary)⟩

def isNonBlank (line : List Char) : Bool := line.any fun c => !isWhitespace c

def normalizedLines (summary : List Char) (maxLineChars : Nat) : List (List Char) :=
  ((textLines summary).filter isNonBlank).map fun line =>
    truncateLine (collapseInlineWhitespace line) maxLineChars

/-- Of the lines that are the same but for the case of their letters, the first ones. -/
def distinctLines (summary : List Char) (maxLineChars : Nat) : List (List Char) :=
  firsts (fun line => some (dedupeKey line)) [] (normalizedLines summary maxLineChars)

theorem mem_intercalate_singleton {c separator : Char} {parts : List (List Char)}
    (h : c ∈ [separator].intercalate parts) : c = separator ∨ ∃ part ∈ parts, c ∈ part := by
  induction parts with
  | nil => cases h
  | cons first rest ih =>
    cases rest with
    | nil => exact .inr ⟨first, mem_cons_self, by simpa using h⟩
    | cons next rest =>
      rw [intercalate_cons_cons, append_assoc, mem_append, mem_append,
        mem_singleton] at h
      rcases h with hfirst | hseparator | hrest
      · exact .inr ⟨first, mem_cons_self, hfirst⟩
      · exact .inl hseparator
      · exact (ih hrest).imp_right fun ⟨part, hpart, hc⟩ =>
          ⟨part, mem_cons_of_mem first hpart, hc⟩

variable {line summary : List Char} {lines : List (List Char)} {budget : SummaryCompressionBudget}

theorem collapse_eq_nil_iff :
    collapseInlineWhitespace line = [] ↔ isNonBlank line = false := by
  have hblank : isNonBlank line = false ↔ ∀ c ∈ line, isWhitespace c = true := by
    simp [isNonBlank]
  rw [hblank]
  constructor
  · intro hnil
    apply blank_of_splitWhitespace
    cases hwords : splitWhitespace line with
    | nil => rfl
    | cons word words =>
      have hword : word ≠ [] := by
        have hmem : word ∈ splitWhitespace line := by simp [hwords]
        simpa using (mem_filter.mp hmem).2
      rw [collapseInlineWhitespace, hwords] at hnil
      cases words with
      | nil => exact absurd (by simpa using hnil) hword
      | cons next words => simp [intercalate_cons_cons] at hnil
  · intro hall
    have hwords : splitWhitespace line = [] := by
      have hrest := splitWhitespace_blanks hall []
      rw [append_nil] at hrest
      exact hrest
    simp [collapseInlineWhitespace, hwords]

/-- A text that is one line: not empty, and without line breaks. -/
structure IsLine (line : List Char) : Prop where
  ne_nil : line ≠ []
  newline : '\n' ∉ line
  carriage : '\r' ∉ line

theorem mem_truncateLine {c : Char} {maxChars : Nat} (h : c ∈ truncateLine line maxChars) :
    c ∈ line ∨ c = '…' := by
  unfold truncateLine at h
  split at h
  · exact .inl h
  · split at h
    · exact .inr (by simpa using h)
    · rcases mem_append.mp h with htake | hlast
      · exact .inl (mem_of_mem_take htake)
      · exact .inr (by simpa using hlast)

theorem truncateLine_ne_nil (h : line ≠ []) (maxChars : Nat) :
    truncateLine line maxChars ≠ [] := by
  unfold truncateLine
  split
  · exact h
  · split <;> simp

theorem IsLine.truncate (h : IsLine line) (maxChars : Nat) :
    IsLine (truncateLine line maxChars) where
  ne_nil := truncateLine_ne_nil h.ne_nil maxChars
  newline hmem := (mem_truncateLine hmem).elim h.newline (by decide)
  carriage hmem := (mem_truncateLine hmem).elim h.carriage (by decide)

theorem isLine_collapse (h : isNonBlank line = true) :
    IsLine (collapseInlineWhitespace line) := by
  have hchars : ∀ c ∈ collapseInlineWhitespace line, c = ' ' ∨ isWhitespace c = false := by
    intro c hc
    refine (mem_intercalate_singleton hc).imp_right fun ⟨word, hword, hcword⟩ => ?_
    exact not_of_mem_splitOnP (mem_of_mem_filter hword) c hcword
  constructor
  · intro hnil
    rw [collapse_eq_nil_iff, h] at hnil
    cases hnil
  · intro hmem
    exact absurd (hchars _ hmem) (by decide)
  · intro hmem
    exact absurd (hchars _ hmem) (by decide)

theorem isLine_of_mem_distinctLines {maxLineChars : Nat}
    (h : line ∈ distinctLines summary maxLineChars) : IsLine line := by
  obtain ⟨raw, hraw, rfl⟩ := mem_map.mp ((firsts_sublist [] _).subset h)
  exact (isLine_collapse (mem_filter.mp hraw).2).truncate maxLineChars

theorem normalizeFrom_spec (maxLineChars : Nat) (seen lines : List (List Char)) :
    (normalizeFrom maxLineChars seen lines).lines =
        firsts (fun line => some (dedupeKey line)) seen ((lines.filter isNonBlank).map fun line =>
          truncateLine (collapseInlineWhitespace line) maxLineChars) ∧
      (lines.filter isNonBlank).length =
        (normalizeFrom maxLineChars seen lines).lines.length +
          (normalizeFrom maxLineChars seen lines).removedDuplicateLines := by
  induction lines generalizing seen with
  | nil => exact ⟨rfl, rfl⟩
  | cons line rest ih =>
    cases hblank : isNonBlank line with
    | false =>
      have hnil := collapse_eq_nil_iff.mpr hblank
      simpa [normalizeFrom, hnil, hblank] using ih seen
    | true =>
      have hne := (isLine_collapse hblank).ne_nil
      by_cases hseen : dedupeKey
          (truncateLine (collapseInlineWhitespace line) maxLineChars) ∈ seen
      · obtain ⟨hlines, hcount⟩ := ih seen
        simp only [normalizeFrom, if_neg hne, if_pos (contains_iff_mem.mpr hseen), if_pos hseen,
          filter_cons_of_pos hblank, map_cons, firsts, length_cons]
        exact ⟨hlines, by omega⟩
      · obtain ⟨hlines, hcount⟩ :=
          ih (dedupeKey (truncateLine (collapseInlineWhitespace line) maxLineChars) :: seen)
        simp only [normalizeFrom, if_neg hne, if_neg (mt contains_iff_mem.mp hseen), if_neg hseen,
          filter_cons_of_pos hblank, map_cons, firsts, length_cons, hlines]
        rw [hlines] at hcount
        exact ⟨trivial, by omega⟩

theorem normalizeLines_lines (summary : List Char) (maxLineChars : Nat) :
    (normalizeLines summary maxLineChars).lines = distinctLines summary maxLineChars :=
  (normalizeFrom_spec maxLineChars [] (textLines summary)).1

theorem normalizeLines_count (summary : List Char) (maxLineChars : Nat) :
    ((textLines summary).filter isNonBlank).length =
      (distinctLines summary maxLineChars).length +
        (normalizeLines summary maxLineChars).removedDuplicateLines := by
  rw [← normalizeLines_lines]
  exact (normalizeFrom_spec maxLineChars [] (textLines summary)).2

theorem length_join (lines : List (List Char)) :
    (['\n'].intercalate lines).length = joinedCharCount lines := by
  induction lines with
  | nil => rfl
  | cons first rest ih =>
    cases rest with
    | nil => simp [joinedCharCount]
    | cons next rest =>
      rw [intercalate_cons_cons, append_assoc, length_append,
        length_append, ih]
      simp [joinedCharCount]
      omega

theorem textLines_join (h : ∀ line ∈ lines, IsLine line) :
    textLines (['\n'].intercalate lines) = lines := by
  rcases eq_nil_or_concat lines with rfl | ⟨init, last, rfl⟩
  · rfl
  · rw [concat_eq_append] at h ⊢
    have hsplit : (['\n'].intercalate (init ++ [last])).splitOnP (fun c => decide (c = '\n')) =
        init ++ [last] :=
      splitOn_intercalate '\n' (fun line hline => (h line hline).newline) (by simp)
    have hlast : last ≠ [] := (h last (by simp)).ne_nil
    have hkeep : init.map (fun line => (stripSuffix ['\r'] line).getD line) = init := by
      conv_rhs => rw [← map_id init]
      apply map_congr_left
      intro line hline
      have hnone : ['\r'].isSuffixOf line = false := by
        apply Bool.eq_false_iff.mpr
        intro hsuf
        have hmem := (isSuffixOf_iff_suffix.mp hsuf).subset mem_cons_self
        exact (h line (mem_append_left _ hline)).carriage hmem
      simp [stripSuffix, hnone]
    unfold textLines
    simp only [hsplit, getLast?_concat, dropLast_concat, hkeep]

theorem joinedCharCount_le {others : List (List Char)} (h : lines.Subperm others) :
    joinedCharCount lines ≤ joinedCharCount others := by
  have hsum : (lines.map List.length).sum ≤ (others.map List.length).sum := by
    obtain ⟨part, hperm, hsublist⟩ := h
    rw [← (hperm.map List.length).sum_eq]
    exact (hsublist.map List.length).sum_le_sum fun _ _ => Nat.zero_le _
  have hlen := h.length_le
  unfold joinedCharCount
  omega

theorem withinBudget_of_subperm {others : List (List Char)} (h : lines.Subperm others)
    (hothers : withinBudget budget others = true) : withinBudget budget lines = true := by
  simp only [withinBudget, Bool.and_eq_true, decide_eq_true_eq] at hothers ⊢
  exact ⟨h.length_le.trans hothers.1, (joinedCharCount_le h).trans hothers.2⟩

section Selection

variable (lines : List (List Char)) (budget : SummaryCompressionBudget)

def fitsAt (indexes : List Nat) : Bool := withinBudget budget (indexes.map (lineAt lines))

theorem closed_fitsAt : Closed (fitsAt lines budget) := by
  rintro xs ys ⟨part, hperm, hsublist⟩
  exact withinBudget_of_subperm ⟨part.map _, hperm.map _, hsublist.map _⟩

def priorityAt (index : Nat) : Nat := linePriority (lineAt lines index)

theorem zipIdx_eq_map_lineAt :
    lines.zipIdx = (List.range lines.length).map fun index => (lineAt lines index, index) := by
  apply ext_getElem
  · simp
  · intro index hindex hother
    have hlt : index < lines.length := by simpa using hindex
    simp [lineAt, hlt]

theorem selectLineIndexes_eq :
    selectLineIndexes lines budget =
      select (fitsAt lines budget) (priorityAt lines) 4 lines.length := by
  unfold selectLineIndexes select
  congr 1
  funext selected priority
  rw [zipIdx_eq_map_lineAt, foldl_map]
  congr 1
  funext selected index
  unfold consider fitsAt withinBudget priorityAt
  split
  · rfl
  · simp only [map_append, map_cons, map_nil, Bool.and_eq_true, decide_eq_true_eq]
    split
    · rename_i hlines
      rw [if_neg (by omega)]
    · split
      · rename_i hchars
        rw [if_neg (by omega)]
      · rw [if_pos (by omega)]

theorem linePriority_lt (line : List Char) : linePriority line < 4 := by
  unfold linePriority
  split
  · decide
  · split
    · decide
    · split <;> decide

theorem map_lineAt_range : (List.range lines.length).map (lineAt lines) = lines := by
  apply ext_getElem
  · simp
  · intro index hindex hother
    simp [lineAt, hother]

def selectedLines : List (List Char) := (selectLineIndexes lines budget).map (lineAt lines)

theorem selectedLines_sublist : (selectedLines lines budget).Sublist lines := by
  have hsublist : (selectLineIndexes lines budget).Sublist (List.range lines.length) := by
    rw [selectLineIndexes_eq]
    exact select_sublist (closed_fitsAt lines budget) 4 lines.length
  have hlines := hsublist.map (lineAt lines)
  rw [map_lineAt_range] at hlines
  exact hlines

theorem selectedLines_within (hne : selectedLines lines budget ≠ []) :
    withinBudget budget (selectedLines lines budget) = true := by
  unfold selectedLines at hne ⊢
  rw [selectLineIndexes_eq] at hne ⊢
  exact fits_select (closed_fitsAt lines budget) (by simpa using hne)

theorem not_within_of_not_mem (hline : line ∈ lines) (hnot : line ∉ selectedLines lines budget) :
    withinBudget budget ((selectedLines lines budget).filter
      (fun kept => linePriority kept ≤ linePriority line) ++ [line]) = false := by
  obtain ⟨index, hindex, rfl⟩ := getElem_of_mem hline
  have hat : lineAt lines index = lines[index] := by simp [lineAt, hindex]
  rw [← hat] at hnot ⊢
  unfold selectedLines at hnot ⊢
  have hleft : index ∉ selectLineIndexes lines budget :=
    fun hmem => hnot (mem_map_of_mem hmem)
  rw [selectLineIndexes_eq] at hleft ⊢
  have hfits := not_fits_of_left_out (closed_fitsAt lines budget) hindex (linePriority_lt _) hleft
  rw [fitsAt, map_append] at hfits
  rw [filter_map]
  exact hfits

end Selection

/-- What is kept of a summary, and how the result of its compression shows it. -/
structure Compressed (summary : List Char) (budget : SummaryCompressionBudget)
    (kept : List (List Char)) : Prop where
  lines : (textLines (compressSummary summary budget).summary).length ≤ budget.maxLines
  chars : (compressSummary summary budget).summary.length ≤ budget.maxChars
  shown : textLines (compressSummary summary budget).summary = kept ∨
    textLines (compressSummary summary budget).summary =
      kept ++ [omissionNotice (compressSummary summary budget).omittedLines]
  fromInput : kept.Sublist (distinctLines summary budget.maxLineChars) ∨
    (∀ line ∈ distinctLines summary budget.maxLineChars, withinBudget budget [line] = false) ∧
      ∃ first, (distinctLines summary budget.maxLineChars).head? = some first ∧
        kept = [truncateLine first budget.maxChars]
  counted : ((textLines summary).filter isNonBlank).length =
    kept.length + (compressSummary summary budget).removedDuplicateLines +
      (compressSummary summary budget).omittedLines
  maximal : ∀ line ∈ distinctLines summary budget.maxLineChars, line ∉ kept →
    withinBudget budget (kept.filter (fun other => linePriority other ≤ linePriority line) ++
      [line]) = false

/-- The lines that are kept: the selected ones, or the first one if none fits. -/
def keptLines (lines : List (List Char)) (budget : SummaryCompressionBudget) :
    List (List Char) :=
  if selectedLines lines budget = [] then [truncateLine (lineAt lines 0) budget.maxChars]
  else selectedLines lines budget

theorem length_truncateLine_le {maxChars : Nat} (h : 1 ≤ maxChars) :
    (truncateLine line maxChars).length ≤ maxChars := by
  unfold truncateLine
  split
  · omega
  · split
    · simpa using h
    · simp only [length_append, length_take, length_singleton]
      omega

section Kept

variable {lines : List (List Char)} {budget : SummaryCompressionBudget}

theorem keptLines_within (hchars : 1 ≤ budget.maxChars) (hlines : 1 ≤ budget.maxLines) :
    withinBudget budget (keptLines lines budget) = true := by
  unfold keptLines
  split
  · have hlen : (truncateLine (lineAt lines 0) budget.maxChars).length ≤ budget.maxChars :=
      length_truncateLine_le hchars
    simpa [withinBudget, joinedCharCount, hlines] using hlen
  · rename_i hne
    exact selectedLines_within lines budget hne

theorem none_within_of_selected_nil (h : selectedLines lines budget = []) (hline : line ∈ lines) :
    withinBudget budget [line] = false := by
  have hfits := not_within_of_not_mem lines budget hline (by simp [h])
  simpa [h] using hfits

theorem keptLines_length (hne : lines ≠ []) : (keptLines lines budget).length ≤ lines.length := by
  unfold keptLines
  split
  · exact length_pos_iff.mpr hne
  · exact (selectedLines_sublist lines budget).length_le

theorem keptLines_isLine (hne : lines ≠ []) (h : ∀ line ∈ lines, IsLine line) :
    ∀ line ∈ keptLines lines budget, IsLine line := by
  unfold keptLines
  split
  · intro line hline
    obtain rfl := mem_singleton.mp hline
    apply IsLine.truncate
    apply h
    have hzero : 0 < lines.length := length_pos_iff.mpr hne
    simp [lineAt, hzero]
  · exact fun line hline => h line ((selectedLines_sublist lines budget).subset hline)

theorem keptLines_maximal (hline : line ∈ lines) (hnot : line ∉ keptLines lines budget) :
    withinBudget budget ((keptLines lines budget).filter
      (fun other => linePriority other ≤ linePriority line) ++ [line]) = false := by
  unfold keptLines at hnot ⊢
  split
  · rename_i hnil
    -- the line does not even fit alone
    apply Bool.eq_false_iff.mpr
    intro hall
    have halone := withinBudget_of_subperm
      (sublist_append_right _ [line]).subperm hall
    rw [none_within_of_selected_nil hnil hline] at halone
    cases halone
  · rename_i hne
    rw [if_neg hne] at hnot
    exact not_within_of_not_mem lines budget hline hnot

theorem keptLines_fromInput (hne : lines ≠ []) :
    (keptLines lines budget).Sublist lines ∨
      (∀ line ∈ lines, withinBudget budget [line] = false) ∧
        ∃ first, lines.head? = some first ∧
          keptLines lines budget = [truncateLine first budget.maxChars] := by
  unfold keptLines
  split
  · rename_i hnil
    right
    refine ⟨fun line hline => none_within_of_selected_nil hnil hline, ?_⟩
    obtain ⟨first, rest, rfl⟩ := exists_cons_of_ne_nil hne
    exact ⟨first, rfl, rfl⟩
  · exact .inl (selectedLines_sublist lines budget)

end Kept

def shownLines (lines : List (List Char)) (budget : SummaryCompressionBudget) :
    List (List Char) :=
  if 0 < lines.length - (keptLines lines budget).length then
    pushLineWithBudget (keptLines lines budget)
      (omissionNotice (lines.length - (keptLines lines budget).length)) budget
  else keptLines lines budget

theorem compressSummary_of_lines (hne : distinctLines summary budget.maxLineChars ≠ [])
    (hchars : 1 ≤ budget.maxChars) (hlines : 1 ≤ budget.maxLines) :
    (compressSummary summary budget).summary =
        ['\n'].intercalate (shownLines (distinctLines summary budget.maxLineChars) budget) ∧
      (compressSummary summary budget).omittedLines =
        (distinctLines summary budget.maxLineChars).length -
          (keptLines (distinctLines summary budget.maxLineChars) budget).length ∧
      (compressSummary summary budget).removedDuplicateLines =
        (normalizeLines summary budget.maxLineChars).removedDuplicateLines := by
  have hbudget : ¬(budget.maxChars = 0 ∨ budget.maxLines = 0) := by omega
  unfold compressSummary
  simp only [normalizeLines_lines]
  cases hdistinct : distinctLines summary budget.maxLineChars with
  | nil => exact absurd hdistinct hne
  | cons first rest =>
    simp only [if_neg hbudget]
    exact ⟨rfl, rfl, trivial⟩

theorem isLine_omissionNotice (omittedLines : Nat) : IsLine (omissionNotice omittedLines) := by
  have hdigits : ∀ c ∈ Nat.toDigits 10 omittedLines, c ≠ '\n' ∧ c ≠ '\r' := by
    intro c hc
    have hdigit := Parser.isDigit_toDigits hc
    constructor <;> (rintro rfl; revert hdigit; decide)
  constructor
  · simp [omissionNotice]
  · simp only [omissionNotice, mem_append, not_or]
    exact ⟨⟨by decide, fun hmem => (hdigits _ hmem).1 rfl⟩, by decide⟩
  · simp only [omissionNotice, mem_append, not_or]
    exact ⟨⟨by decide, fun hmem => (hdigits _ hmem).2 rfl⟩, by decide⟩

theorem shownLines_spec (hkept : withinBudget budget (keptLines lines budget) = true)
    (hline : ∀ line ∈ keptLines lines budget, IsLine line) :
    withinBudget budget (shownLines lines budget) = true ∧
      (∀ line ∈ shownLines lines budget, IsLine line) ∧
      (shownLines lines budget = keptLines lines budget ∨
        shownLines lines budget = keptLines lines budget ++
          [omissionNotice (lines.length - (keptLines lines budget).length)]) := by
  unfold shownLines pushLineWithBudget
  split
  · split
    · rename_i hwithin
      refine ⟨hwithin, ?_, .inr rfl⟩
      intro line hmem
      rcases mem_append.mp hmem with hmem | hmem
      · exact hline line hmem
      · obtain rfl := mem_singleton.mp hmem
        exact isLine_omissionNotice _
    · exact ⟨hkept, hline, .inl rfl⟩
  · exact ⟨hkept, hline, .inl rfl⟩

theorem compressed_of_blank (hnil : distinctLines summary budget.maxLineChars = []) :
    Compressed summary budget [] := by
  have hlines := normalizeLines_lines summary budget.maxLineChars
  have hcount := normalizeLines_count summary budget.maxLineChars
  rw [hnil] at hlines hcount
  have hsummary : (compressSummary summary budget).summary = [] := by
    simp [compressSummary, hlines]
  have homitted : (compressSummary summary budget).omittedLines = 0 := by
    simp [compressSummary, hlines]
  have hremoved : (compressSummary summary budget).removedDuplicateLines =
      (normalizeLines summary budget.maxLineChars).removedDuplicateLines := by
    simp [compressSummary, hlines]
  constructor
  · simp [hsummary, textLines]
  · simp [hsummary]
  · simp [hsummary, textLines]
  · exact .inl (nil_sublist _)
  · rw [homitted, hremoved, hcount]
    simp
  · simp [hnil]

/-- A compressed summary keeps to its budget, and what it leaves out had no room. -/
theorem compressSummary_compressed (summary : List Char) (budget : SummaryCompressionBudget)
    (hchars : 1 ≤ budget.maxChars) (hlines : 1 ≤ budget.maxLines) :
    ∃ kept, Compressed summary budget kept := by
  by_cases hne : distinctLines summary budget.maxLineChars = []
  · exact ⟨[], compressed_of_blank hne⟩
  · have hcount := normalizeLines_count summary budget.maxLineChars
    have hlen : (keptLines (distinctLines summary budget.maxLineChars) budget).length ≤
        (distinctLines summary budget.maxLineChars).length := keptLines_length hne
    obtain ⟨hsummary, homitted, hremoved⟩ := compressSummary_of_lines hne hchars hlines
    obtain ⟨hwithin, hisLine, hshown⟩ := shownLines_spec (keptLines_within hchars hlines)
      (keptLines_isLine hne fun _ => isLine_of_mem_distinctLines)
    simp only [withinBudget, Bool.and_eq_true, decide_eq_true_eq] at hwithin
    refine ⟨keptLines (distinctLines summary budget.maxLineChars) budget, ?_⟩
    constructor
    · rw [hsummary, textLines_join hisLine]
      exact hwithin.1
    · rw [hsummary, length_join]
      exact hwithin.2
    · rw [hsummary, homitted, textLines_join hisLine]
      exact hshown
    · exact keptLines_fromInput hne
    · rw [homitted, hremoved, hcount]
      omega
    · exact fun line hline hnot => keptLines_maximal hline hnot

/-- A repeated line and a budget of one line. -/
theorem compressSummary_compressed_one_line :
    ∃ kept, Compressed "Summary:\n- a\n- A\n".toList ⟨20, 1, 160⟩ kept :=
  compressSummary_compressed _ _ (by decide) (by decide)

end DbClinic.Runtime
