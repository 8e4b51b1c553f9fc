import DbClinic.Runtime.Occurrence
import DbClinic.Runtime.SummaryText

/-!
A summary as lines. The lines of a text are taken without the blanks at their ends;
what is read off them does not depend on runs of blank lines. A mark is a text that
the fixed words of a summary cannot begin or end, so it occurs in a line only if a
quoted text contains it.
-/

namespace DbClinic.Runtime

open List

theorem trimEnd_cons (c : Char) (cs : List Char) :
    trimEnd (c :: cs) = trimEnd (c :: trimEnd cs) := by
  unfold trimEnd
  rw [reverse_cons, reverse_cons, reverse_reverse, dropWhile_append,
    dropWhile_append, dropWhile_idempotent]

variable {cs line : List Char} {c : Char} {lines : List (List Char)}

theorem trimEnd_concat (hc : isWhitespace c = true) (cs : List Char) :
    trimEnd (cs ++ [c]) = trimEnd cs := by
  simp [trimEnd, hc]

theorem trimEnd_eq_nil_iff : trimEnd cs = [] ↔ trim cs = [] := by
  have hblank (ds : List Char) : ds.dropWhile isWhitespace = [] ↔ ∀ c ∈ ds, isWhitespace c := by
    rw [dropWhile_eq_nil_iff]
  constructor
  · intro h
    rw [trimEnd, reverse_eq_nil_iff, hblank] at h
    have hall : cs.dropWhile isWhitespace = [] :=
      (hblank cs).mpr fun c hc => h c (mem_reverse.mpr hc)
    rw [trim, hall]
    rfl
  · intro h
    rw [trim, reverse_eq_nil_iff, hblank] at h
    have hrest : cs.dropWhile isWhitespace = [] := by
      cases hdrop : cs.dropWhile isWhitespace with
      | nil => rfl
      | cons c rest =>
        have hhead := head?_dropWhile_not isWhitespace cs
        rw [hdrop] at hhead h
        have hfirst := h c (by simp)
        simp [hfirst] at hhead
    rw [trimEnd, reverse_eq_nil_iff, hblank]
    intro c hc
    exact (hblank cs).mp hrest c (mem_reverse.mp hc)

/-- The lines of a text, without the blanks at their ends. -/
def trimmedLines (cs : List Char) : List (List Char) := (cs.splitOnP (· = '\n')).map trimEnd

theorem trimmedLines_cons (c : Char) (cs : List Char) :
    trimmedLines (c :: cs) =
      if c = '\n' then [] :: trimmedLines cs
      else (trimmedLines cs).modifyHead fun line => trimEnd (c :: line) := by
  unfold trimmedLines
  rw [splitOnP_cons_eq_if_modifyHead]
  by_cases hc : c = '\n'
  · simp [hc, trimEnd]
  · cases hrest : cs.splitOnP (· = '\n') with
    | nil => exact absurd hrest (splitOnP_ne_nil _ cs)
    | cons first more => simp [hc, ← trimEnd_cons]

theorem trimmedLines_append (cs ds : List Char) :
    trimmedLines (cs ++ '\n' :: ds) = trimmedLines cs ++ trimmedLines ds := by
  simp [trimmedLines, splitOnP_append_cons]

theorem trimmedLines_of_line (h : '\n' ∉ cs) : trimmedLines cs = [trimEnd cs] := by
  have hline : cs.splitOnP (· = '\n') = [cs] := by
    refine splitOnP_eq_singleton fun c hc => ?_
    have hne : c ≠ '\n' := fun heq => h (heq ▸ hc)
    simpa using hne
  simp [trimmedLines, hline]

theorem trimmedLines_joined {parts : List String} (h : parts ≠ []) :
    trimmedLines (joinText "\n" parts).toList =
      parts.flatMap fun part => trimmedLines part.toList := by
  rw [joinText, String.toList_intercalate]
  induction parts with
  | nil => exact absurd rfl h
  | cons part rest ih =>
    cases rest with
    | nil => simp
    | cons next rest =>
      have hrest := ih (by simp)
      rw [map_cons, map_cons, intercalate_cons_cons]
      rw [map_cons] at hrest
      rw [flatMap_cons, ← hrest, append_assoc]
      exact trimmedLines_append part.toList _

theorem trimmedLines_concat (hc : isWhitespace c = true) (cs : List Char) :
    trimmedLines (cs ++ [c]) = trimmedLines cs ∨
      trimmedLines (cs ++ [c]) = trimmedLines cs ++ [[]] := by
  by_cases hline : c = '\n'
  · subst hline
    exact .inr (trimmedLines_append cs [])
  · left
    induction cs with
    | nil =>
      rw [nil_append, trimmedLines_cons, if_neg hline]
      simp [trimmedLines, trimEnd, hc]
    | cons d cs ih => rw [cons_append, trimmedLines_cons, ih, ← trimmedLines_cons]

theorem trimmedLines_blanks (cs : List Char) {blanks : List Char}
    (h : ∀ c ∈ blanks, isWhitespace c = true) :
    ∃ k, trimmedLines (cs ++ blanks) = trimmedLines cs ++ List.replicate k [] := by
  induction blanks generalizing cs with
  | nil => exact ⟨0, by simp⟩
  | cons c blanks ih =>
    obtain ⟨k, hk⟩ := ih (cs ++ [c]) fun d hd => h d (mem_cons_of_mem c hd)
    rw [append_assoc, singleton_append] at hk
    rcases trimmedLines_concat (h c mem_cons_self) cs with hsame | hmore
    · exact ⟨k, by rw [hk, hsame]⟩
    · exact ⟨k + 1, by rw [hk, hmore, replicate_succ, append_assoc]; rfl⟩

theorem trimmedLines_trimEnd (cs : List Char) :
    ∃ k, trimmedLines cs = trimmedLines (trimEnd cs) ++ List.replicate k [] := by
  have hparts : trimEnd cs ++ (cs.reverse.takeWhile isWhitespace).reverse = cs := by
    rw [trimEnd, ← reverse_append, takeWhile_append_dropWhile, reverse_reverse]
  have hblanks : ∀ c ∈ (cs.reverse.takeWhile isWhitespace).reverse, isWhitespace c = true := by
    intro c hc
    exact mem_takeWhile_imp (mem_reverse.mp hc)
  obtain ⟨k, hk⟩ := trimmedLines_blanks (trimEnd cs) hblanks
  exact ⟨k, by rw [← hk, hparts]⟩

theorem trimmedLines_textLines (cs : List Char) :
    ∃ k, trimmedLines cs = (textLines cs).map trimEnd ++ List.replicate k [] := by
  have hdrop (line : List Char) : trimEnd ((stripSuffix ['\r'] line).getD line) = trimEnd line := by
    unfold stripSuffix
    split
    · rename_i hsuf
      obtain ⟨before, rfl⟩ := isSuffixOf_iff_suffix.mp hsuf
      simp [trimEnd_concat (show isWhitespace '\r' = true by decide)]
    · rfl
  have hmap (parts : List (List Char)) :
      (parts.map fun line => (stripSuffix ['\r'] line).getD line).map trimEnd =
        parts.map trimEnd := by
    simp [hdrop]
  have hne := splitOnP_ne_nil (· = '\n') cs
  have hparts := dropLast_append_getLast hne
  have hlast : (cs.splitOnP (· = '\n')).getLast? = some ((cs.splitOnP (· = '\n')).getLast hne) :=
    getLast?_eq_some_getLast hne
  unfold textLines trimmedLines
  dsimp only
  rw [hlast]
  cases hend : (cs.splitOnP (· = '\n')).getLast hne with
  | nil =>
    refine ⟨1, ?_⟩
    dsimp only
    rw [hmap]
    conv_lhs => rw [← hparts, hend, map_append]
    rfl
  | cons c line =>
    refine ⟨0, ?_⟩
    dsimp only
    rw [map_append, hmap]
    conv_lhs => rw [← hparts, hend, map_append]
    simp

theorem prefix_of_mem_textLines (h : line ∈ textLines cs) :
    ∃ part ∈ cs.splitOnP (· = '\n'), line <+: part := by
  have hdropped : ∀ parts : List (List Char), (∀ part ∈ parts, part ∈ cs.splitOnP (· = '\n')) →
      line ∈ parts.map (fun part => (stripSuffix ['\r'] part).getD part) →
        ∃ part ∈ cs.splitOnP (· = '\n'), line <+: part := by
    intro parts hparts hmem
    obtain ⟨part, hpart, rfl⟩ := mem_map.mp hmem
    refine ⟨part, hparts part hpart, ?_⟩
    unfold stripSuffix
    split
    · exact take_prefix _ part
    · exact prefix_rfl
  have hinit (part : List Char) (hpart : part ∈ (cs.splitOnP (· = '\n')).dropLast) :
      part ∈ cs.splitOnP (· = '\n') := (List.dropLast_prefix _).subset hpart
  unfold textLines at h
  dsimp only at h
  split at h
  · exact hdropped _ hinit h
  · exact hdropped _ hinit h
  · rename_i last _ hlast
    rcases mem_append.mp h with h | h
    · exact hdropped _ hinit h
    · obtain rfl := mem_singleton.mp h
      exact ⟨line, mem_of_getLast? hlast, prefix_rfl⟩

theorem newline_not_mem_textLines (h : line ∈ textLines cs) :
    '\n' ∉ line := by
  obtain ⟨part, hpart, hstart⟩ := prefix_of_mem_textLines h
  intro hmem
  have hnot := not_of_mem_splitOnP hpart '\n' (hstart.subset hmem)
  simp at hnot

theorem infix_of_mem_textLines (h : line ∈ textLines cs) :
    line <:+: cs := by
  obtain ⟨part, hpart, hstart⟩ := prefix_of_mem_textLines h
  exact hstart.isInfix.trans (infix_of_mem_splitOnP hpart)

theorem textLines_head (hc : isWhitespace c = false) (cs : List Char) :
    ∃ line rest, textLines (c :: cs) = (c :: line) :: rest := by
  have hline : ¬ decide (c = '\n') = true := by
    rintro hnewline
    rw [of_decide_eq_true hnewline] at hc
    cases hc
  have hkept (line : List Char) :
      ∃ kept, (stripSuffix ['\r'] (c :: line)).getD (c :: line) = c :: kept := by
    unfold stripSuffix
    split
    · rename_i hsuf
      cases line with
      | nil =>
        obtain ⟨before, hbefore⟩ := isSuffixOf_iff_suffix.mp hsuf
        cases before with
        | nil =>
          cases hbefore
          cases hc
        | cons b before => simp at hbefore
      | cons d line => exact ⟨_, rfl⟩
    · exact ⟨line, rfl⟩
  unfold textLines
  dsimp only
  rw [splitOnP_cons_eq_if_modifyHead, if_neg hline]
  cases hparts : cs.splitOnP (· = '\n') with
  | nil => exact absurd hparts (splitOnP_ne_nil _ cs)
  | cons first more =>
    cases more with
    | nil => exact ⟨first, [], rfl⟩
    | cons second more =>
      obtain ⟨kept, hkept⟩ := hkept first
      rw [modifyHead_cons, dropLast_cons_of_ne_nil (by simp), map_cons, hkept]
      split
      · exact ⟨kept, _, rfl⟩
      · exact ⟨kept, _, rfl⟩
      · exact ⟨kept, _, rfl⟩

def timelineHeading : List Char := "- Key timeline:".toList

def timelineLines : (inTimeline : Bool) → List (List Char) → List (List Char)
  | _, [] => []
  | inTimeline, line :: rest =>
    if line = timelineHeading then timelineLines true rest
    else if inTimeline = false then timelineLines inTimeline rest
    else if line = [] then [] else line :: timelineLines inTimeline rest

theorem timelineFrom_eq (inTimeline : Bool) (lines : List (List Char)) :
    timelineFrom inTimeline lines =
      (timelineLines inTimeline (lines.map trimEnd)).map String.ofList := by
  induction lines generalizing inTimeline with
  | nil => rfl
  | cons line rest ih =>
    have hname : "- Key timeline:".toList = timelineHeading := rfl
    rw [timelineFrom, map_cons, timelineLines, hname]
    by_cases hheading : trimEnd line = timelineHeading
    · rw [if_pos hheading, if_pos hheading, ih]
    · rw [if_neg hheading, if_neg hheading]
      by_cases hin : inTimeline = false
      · rw [if_pos hin, if_pos hin, ih]
      · rw [if_neg hin, if_neg hin]
        by_cases hblank : trimEnd line = []
        · rw [if_pos hblank, if_pos hblank]
          rfl
        · rw [if_neg hblank, if_neg hblank, ih]
          rfl

theorem timelineLines_blanks (inTimeline : Bool) (lines : List (List Char)) (k : Nat) :
    timelineLines inTimeline (lines ++ List.replicate k []) = timelineLines inTimeline lines := by
  induction lines generalizing inTimeline with
  | nil =>
    induction k with
    | zero => rfl
    | succ k ih =>
      have hblank : ([] : List Char) ≠ timelineHeading := by decide
      cases inTimeline with
      | true => simp [replicate_succ, timelineLines, hblank]
      | false => simpa [replicate_succ, timelineLines, hblank] using ih
  | cons line rest ih => simp [timelineLines, ih]

theorem timelineLines_skip {before : List (List Char)} (h : timelineHeading ∉ before)
    (lines : List (List Char)) :
    timelineLines false (before ++ lines) = timelineLines false lines := by
  induction before with
  | nil => rfl
  | cons line rest ih =>
    have hline : line ≠ timelineHeading := fun heq => h (heq ▸ mem_cons_self)
    have hrest := ih fun hmem => h (mem_cons_of_mem line hmem)
    simp [timelineLines, hline, hrest]

theorem timelineLines_take (h : timelineHeading ∉ lines) :
    timelineLines true lines = lines.takeWhile (· ≠ []) := by
  induction lines with
  | nil => rfl
  | cons line rest ih =>
    have hline : line ≠ timelineHeading := fun heq => h (heq ▸ mem_cons_self)
    have hrest := ih fun hmem => h (mem_cons_of_mem line hmem)
    by_cases hblank : line = []
    · subst hblank
      simp [timelineLines, hline.symm]
    · simp [timelineLines, hline, hblank, hrest]

theorem timelineLines_collapse (inTimeline lastBlank : Bool) (hlines : ∀ line ∈ lines, '\n' ∉ line)
    (h : inTimeline = true → lastBlank = false) :
    timelineLines inTimeline (trimmedLines (collapseFrom lastBlank lines)) =
      timelineLines inTimeline (lines.map trimEnd) := by
  induction lines generalizing inTimeline lastBlank with
  | nil => exact timelineLines_blanks inTimeline [] 1
  | cons line rest ih =>
    have hrest : ∀ other ∈ rest, '\n' ∉ other :=
      fun other hmem => hlines other (mem_cons_of_mem line hmem)
    have hline := trimmedLines_of_line (hlines line mem_cons_self)
    have hnone : ([] : List Char) ≠ timelineHeading := by decide
    rw [collapseFrom]
    by_cases hblank : trimEnd line = []
    · have htrim := trimEnd_eq_nil_iff.mp hblank
      cases inTimeline with
      | true =>
        have hlast := h rfl
        simp [htrim, hlast, trimmedLines_append, hline, hblank, timelineLines, hnone]
      | false =>
        cases lastBlank with
        | true =>
          have hih := ih false true hrest (by simp)
          simp [htrim, hblank, timelineLines, hnone, hih]
        | false =>
          have hih := ih false true hrest (by simp)
          simp [htrim, trimmedLines_append, hline, hblank, timelineLines, hnone, hih]
    · have htrim : trim line ≠ [] := mt trimEnd_eq_nil_iff.mpr hblank
      have hih (inside : Bool) := ih inside false hrest (by simp)
      simp [htrim, trimmedLines_append, hline, timelineLines, hblank, hih]

theorem timelineLines_shown (hhead : ∀ c ∈ cs.head?, isWhitespace c = false) :
    timelineLines false (trimmedLines (trim (collapseBlankLines cs))) =
      timelineLines false (trimmedLines cs) := by
  have hstart : ∀ d ∈ (collapseBlankLines cs).head?, isWhitespace d = false := by
    cases cs with
    | nil =>
      intro d hd
      cases hd
    | cons c cs =>
      have hc := hhead c rfl
      obtain ⟨line, rest, hlines⟩ := textLines_head hc cs
      simp [collapseBlankLines, hlines, collapseFrom, hc]
  obtain ⟨k, hk⟩ := trimmedLines_trimEnd (collapseBlankLines cs)
  obtain ⟨m, hm⟩ := trimmedLines_textLines cs
  rw [trim_of_head hstart, ← timelineLines_blanks false _ k, ← hk, hm, timelineLines_blanks]
  exact timelineLines_collapse false false (fun line hline => newline_not_mem_textLines hline)
    (by simp)

def afterLastTimeline (lines : List (List Char)) : List (List Char) :=
  if lines.contains timelineHeading then (lines.reverse.takeWhile (· ≠ timelineHeading)).reverse
  else []

theorem afterLastTimeline_eq (before : List (List Char)) {after : List (List Char)}
    (h : timelineHeading ∉ after) :
    afterLastTimeline (before ++ timelineHeading :: after) = after := by
  have hafter : ∀ line ∈ after.reverse, decide (line ≠ timelineHeading) = true := by
    intro line hline
    have hne : line ≠ timelineHeading := fun heq => h (heq ▸ mem_reverse.mp hline)
    simpa using hne
  have hmem : timelineHeading ∈ before ++ timelineHeading :: after := by simp
  rw [afterLastTimeline, if_pos (contains_iff_mem.mpr hmem), reverse_append, reverse_cons,
    append_assoc, takeWhile_append_of_pos hafter, singleton_append,
    takeWhile_cons_of_neg (by simp), append_nil, reverse_reverse]

/-- The beginning of the heading, and the same after a line break. -/
def headingWords : List Char := "- Key timeline".toList

def headingMark : List Char := "\n- Key timeline".toList

theorem heading_not_mem (hstart : ¬headingWords <+: cs) (hlater : ¬headingMark <:+: cs) :
    timelineHeading ∉ trimmedLines cs := by
  intro hmem
  obtain ⟨line, hline, heq⟩ := mem_map.mp hmem
  have hwords : headingWords <+: line := by
    have hshort : headingWords <+: timelineHeading := by decide
    have htrimmed : trimEnd line <+: line := by
      rw [← reverse_suffix, trimEnd, reverse_reverse]
      exact dropWhile_suffix isWhitespace
    exact (heq ▸ hshort).trans htrimmed
  cases hparts : cs.splitOnP (· = '\n') with
  | nil => exact absurd hparts (splitOnP_ne_nil _ cs)
  | cons first more =>
    obtain ⟨hfirst, hmore⟩ := splitOnP_parts hparts
    rw [hparts] at hline
    rcases mem_cons.mp hline with rfl | hline
    · exact hstart (hwords.trans hfirst)
    · obtain ⟨b, hb, hwithin⟩ := hmore line hline
      obtain rfl := of_decide_eq_true hb
      have hmark : headingMark <+: '\n' :: line := (prefix_cons_inj '\n').mpr hwords
      exact hlater (hmark.isInfix.trans hwithin)

/-- A mark: it begins unlike every fixed word of a summary, has no character that
stands between quotes, and does not end in a blank. -/
structure Mark (pattern : List Char) : Prop where
  first : pattern.head? = some '<' ∨ pattern.head? = some '\n'
  apart : ∀ c ∈ ['(', ')', '|', ',', '.', ':', '…'], c ∉ pattern
  last : pattern.getLast? ≠ some ' '

/-- Words that no mark begins in. -/
def Fixed (words : List Char) : Prop := '<' ∉ words ∧ '\n' ∉ words

instance (words : List Char) : Decidable (Fixed words) :=
  inferInstanceAs (Decidable (_ ∧ _))

section Marks

variable {pattern cs ds : List Char}

theorem Mark.ne_nil (h : Mark pattern) : pattern ≠ [] := by
  rintro rfl
  rcases h.first with hfirst | hfirst
  · cases hfirst
  · cases hfirst

theorem Mark.not_infix_append (hmark : Mark pattern) (words : List Char) (hfixed : Fixed words)
    (h : ¬pattern <:+: cs) : ¬pattern <:+: words ++ cs := by
  refine not_infix_behind hmark.ne_nil (fun c hc hmem => ?_) h
  -- A mark does not begin with a character of a fixed word.
  rcases hmark.first with hfirst | hfirst
  · obtain rfl := Option.some.inj (hc.symm.trans hfirst)
    exact hfixed.1 hmem
  · obtain rfl := Option.some.inj (hc.symm.trans hfirst)
    exact hfixed.2 hmem

theorem Mark.not_infix_fixed (hmark : Mark pattern) {words : List Char} (hfixed : Fixed words) :
    ¬pattern <:+: words := by
  have hnil : ¬pattern <:+: [] := fun h => hmark.ne_nil (infix_nil.mp h)
  simpa using hmark.not_infix_append words hfixed hnil

theorem not_infix_lines {parts : List String} (hs : '\n' ∉ pattern) (hne : pattern ≠ [])
    (h : ∀ part ∈ parts, ¬pattern <:+: part.toList) : ¬pattern <:+: (joinText "\n" parts).toList := by
  rw [joinText, String.toList_intercalate]
  exact not_infix_intercalate hs hne (by simpa using h)

theorem not_infix_shown (hs : '\n' ∉ pattern) (hne : pattern ≠ []) (h : ¬pattern <:+: cs) :
    ¬pattern <:+: trim (collapseBlankLines cs) := by
  have hcollapse (lastBlank : Bool) {lines : List (List Char)}
      (hlines : ∀ line ∈ lines, ¬pattern <:+: line) :
      ¬pattern <:+: collapseFrom lastBlank lines := by
    induction lines generalizing lastBlank with
    | nil => simpa [collapseFrom] using hne
    | cons line rest ih =>
      have hrest (blank : Bool) := ih blank fun other hmem =>
        hlines other (mem_cons_of_mem line hmem)
      rw [collapseFrom]
      split
      · exact hrest _
      · exact not_infix_separated hs hne (hlines line mem_cons_self) (hrest _)
  have hlines : ∀ line ∈ textLines cs, ¬pattern <:+: line :=
    fun line hline => not_infix_within h (infix_of_mem_textLines hline)
  exact not_infix_within (hcollapse false hlines) (infix_trim _)

end Marks

end DbClinic.Runtime
