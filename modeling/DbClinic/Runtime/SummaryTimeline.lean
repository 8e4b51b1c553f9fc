import Mathlib.Data.List.Destutter
import DbClinic.Runtime.SummaryLines
import DbClinic.Runtime.CompactionBounds

/-!
The timeline of a repeated compaction. The second compaction reads its timeline back
from the summary of the removed messages, line by line and up to the first blank
line. If no mark is quoted, every entry is kept exactly if no entry goes on behind
a blank line.
-/

namespace DbClinic.Runtime

open List

def quotedTexts : ContentBlock → List String
  | .text t => [t]
  | .toolUse _ name input => [name, input]
  | .toolResult _ toolName output _ => [toolName, output]
  | .thinking t _ => [t]

def Unquoted (pattern : List Char) (messages : List ConversationMessage) : Prop :=
  ∀ message ∈ messages, ∀ block ∈ message.blocks, ∀ text ∈ quotedTexts block,
    ¬pattern <:+: text.toList

theorem mark_headingMark : Mark headingMark :=
  ⟨.inr (by decide), forall_mem_of_all (by decide), by decide⟩

theorem mark_openAnalysis : Mark (openTag "analysis") :=
  ⟨.inl (by decide), forall_mem_of_all (by decide), by decide⟩

theorem mark_closeAnalysis : Mark (closeTag "analysis") :=
  ⟨.inl (by decide), forall_mem_of_all (by decide), by decide⟩

theorem mark_closeSummary : Mark (closeTag "summary") :=
  ⟨.inl (by decide), forall_mem_of_all (by decide), by decide⟩

section Quotes

variable {pattern : List Char} {messages : List ConversationMessage}

theorem not_infix_truncate (hmark : Mark pattern) {text : String} (h : ¬pattern <:+: text.toList)
    (maxChars : Nat) : ¬pattern <:+: (truncateSummary text maxChars).toList := by
  unfold truncateSummary
  split
  · exact h
  · have htaken := not_infix_within h (List.take_prefix maxChars text.toList).isInfix
    have hnil : ¬pattern <:+: [] := fun hwithin => hmark.ne_nil (infix_nil.mp hwithin)
    have hsep : '…' ∉ pattern := hmark.apart '…' (by simp)
    simpa using not_infix_separated hsep hmark.ne_nil htaken hnil

theorem fixed_toString (n : Nat) : Fixed (toString n).toList := by
  have hdigit : ∀ c ∈ (toString n).toList, c.isDigit = true := by
    intro c hc
    rw [Nat.toString_eq_repr, Nat.toList_repr] at hc
    exact Nat.isDigit_of_mem_toDigits (by decide) (by decide) hc
  refine ⟨fun h => ?_, fun h => ?_⟩
  · cases hdigit '<' h
  · cases hdigit '\n' h

theorem Fixed.append {first second : List Char} (hfirst : Fixed first) (hsecond : Fixed second) :
    Fixed (first ++ second) := by
  unfold Fixed at *
  simp [hfirst, hsecond]

variable {parts items : List String} {line : String}

theorem not_infix_listed (hmark : Mark pattern) (h : ∀ part ∈ parts, ¬pattern <:+: part.toList) :
    ¬pattern <:+: (joinText ", " parts).toList := by
  rw [joinText, String.toList_intercalate]
  induction parts with
  | nil => simpa using hmark.ne_nil
  | cons part rest ih =>
    have hpart := h part mem_cons_self
    have hrest := ih fun other hmem => h other (mem_cons_of_mem part hmem)
    cases rest with
    | nil => simpa using hpart
    | cons next rest =>
      have hblank := hmark.not_infix_append [' '] (by decide) hrest
      have hsep : ',' ∉ pattern := hmark.apart ',' (by simp)
      rw [map_cons, map_cons, intercalate_cons_cons]
      rw [map_cons] at hblank
      simpa using not_infix_separated hsep hmark.ne_nil hpart hblank

theorem not_infix_blocks (hmark : Mark pattern) (h : ∀ part ∈ parts, ¬pattern <:+: part.toList) :
    ¬pattern <:+: (joinText " | " parts).toList := by
  rw [joinText, String.toList_intercalate]
  induction parts with
  | nil => simpa using hmark.ne_nil
  | cons part rest ih =>
    have hpart := h part mem_cons_self
    have hrest := ih fun other hmem => h other (mem_cons_of_mem part hmem)
    cases rest with
    | nil => simpa using hpart
    | cons next rest =>
      have hbefore := not_infix_concat hmark.last hmark.ne_nil hpart
      have hafter := hmark.not_infix_append [' '] (by decide) hrest
      have hsep : '|' ∉ pattern := hmark.apart '|' (by simp)
      rw [map_cons, map_cons, intercalate_cons_cons]
      rw [map_cons] at hafter
      simpa using not_infix_separated hsep hmark.ne_nil hbefore hafter

theorem not_infix_block (hmark : Mark pattern) {block : ContentBlock}
    (h : ∀ text ∈ quotedTexts block, ¬pattern <:+: text.toList) :
    ¬pattern <:+: (summarizeBlock block).toList := by
  refine not_infix_truncate hmark ?_ 160
  cases block with
  | text t => exact h t (by simp [quotedTexts])
  | thinking t signature =>
    have hfixed : Fixed ("thinking (".toList ++ ((toString t.toList.length).toList ++
        " chars)".toList)) :=
      Fixed.append (by decide) ((fixed_toString _).append (by decide))
    simpa using hmark.not_infix_fixed hfixed
  | toolUse id name input =>
    have hname := h name (by simp [quotedTexts])
    have hinput := h input (by simp [quotedTexts])
    have hnil : ¬pattern <:+: [] := fun hwithin => hmark.ne_nil (infix_nil.mp hwithin)
    have hclosed := not_infix_separated (hmark.apart ')' (by simp)) hmark.ne_nil hinput hnil
    have hcall := not_infix_separated (hmark.apart '(' (by simp)) hmark.ne_nil hname hclosed
    have hall := hmark.not_infix_append ("tool_use ".toList) (by decide) hcall
    simpa using hall
  | toolResult id toolName output isError =>
    have hname := h toolName (by simp [quotedTexts])
    have houtput := h output (by simp [quotedTexts])
    have hsummaryLen : Fixed (' ' :: (if isError then "error ".toList else [])) := by
      cases isError <;> decide
    have hres := hmark.not_infix_append _ hsummaryLen houtput
    have hnamed := not_infix_separated (hmark.apart ':' (by simp)) hmark.ne_nil hname hres
    have hall := hmark.not_infix_append ("tool_result ".toList) (by decide) hnamed
    cases isError <;> simpa using hall

variable {message : ConversationMessage} {t item : String}

theorem not_infix_entry (hmark : Mark pattern) (h : Unquoted pattern messages)
    (hmem : message ∈ messages) :
    ¬pattern <:+: (timelineEntry message).toList := by
  have hblocks : ¬pattern <:+: (joinText " | " (message.blocks.map summarizeBlock)).toList := by
    refine not_infix_blocks hmark fun part hpart => ?_
    obtain ⟨block, hblock, rfl⟩ := mem_map.mp hpart
    exact not_infix_block hmark (h message hmem block hblock)
  have hwords : Fixed ("  - ".toList ++ ((roleName message.role).toList ++ ": ".toList)) := by
    cases message.role <;> decide
  simpa [timelineEntry] using hmark.not_infix_append _ hwords hblocks

theorem text_of_firstTextBlock (h : firstTextBlock message = some t) :
    .text t ∈ message.blocks := by
  obtain ⟨block, hblock, htext⟩ := exists_of_findSome?_eq_some h
  cases block with
  | text other =>
    dsimp only at htext
    split at htext
    · obtain rfl := Option.some.inj htext
      exact hblock
    · cases htext
  | thinking t signature => cases htext
  | toolUse id name input => cases htext
  | toolResult id toolName output isError => cases htext

theorem not_infix_firstText (h : Unquoted pattern messages) (hmem : message ∈ messages)
    (ht : firstTextBlock message = some t) :
    ¬pattern <:+: t.toList :=
  h message hmem (.text t) (text_of_firstTextBlock ht) t (by simp [quotedTexts])

theorem not_infix_recent (hmark : Mark pattern) (h : Unquoted pattern messages) (role : MessageRole)
    (limit : Nat) (hitem : item ∈ collectRecentRoleSummaries messages role limit) :
    ¬pattern <:+: item.toList := by
  rw [collectRecentRoleSummaries, mem_reverse] at hitem
  obtain ⟨t, ht, rfl⟩ := mem_map.mp hitem
  obtain ⟨message, hmsg, htext⟩ := mem_filterMap.mp (mem_of_mem_take ht)
  have hmem : message ∈ messages := mem_of_mem_filter (mem_reverse.mp hmsg)
  exact not_infix_truncate hmark (not_infix_firstText h hmem htext) 160

theorem not_infix_pending (hmark : Mark pattern) (h : Unquoted pattern messages)
    (hitem : item ∈ inferPendingWork messages) : ¬pattern <:+: item.toList := by
  rw [inferPendingWork, mem_reverse] at hitem
  obtain ⟨t, ht, rfl⟩ := mem_map.mp hitem
  obtain ⟨message, hmsg, htext⟩ :=
    mem_filterMap.mp (mem_of_mem_filter (mem_of_mem_take ht))
  exact not_infix_truncate hmark
    (not_infix_firstText h (mem_reverse.mp hmsg) htext) 160

theorem not_infix_current (hmark : Mark pattern) (h : Unquoted pattern messages)
    (hitem : inferCurrentWork messages = some item) : ¬pattern <:+: item.toList := by
  obtain ⟨t, ht, rfl⟩ := Option.map_eq_some_iff.mp hitem
  obtain ⟨message, hmsg, htext⟩ := mem_filterMap.mp (mem_of_find?_eq_some ht)
  exact not_infix_truncate hmark
    (not_infix_firstText h (mem_reverse.mp hmsg) htext) 200

theorem mem_of_sortedDistinct {texts : List String} (h : t ∈ sortedDistinct texts) :
    t ∈ texts := by
  have hsorted := (destutter_sublist _ _).subset h
  exact (perm_insertionSort _ texts).mem_iff.mp hsorted

theorem not_infix_file (h : Unquoted pattern messages) {file : String}
    (hfile : file ∈ collectKeyFiles messages) : ¬pattern <:+: file.toList := by
  have hcand := mem_of_sortedDistinct (mem_of_mem_take hfile)
  obtain ⟨block, hblock, hextracted⟩ := mem_flatMap.mp hcand
  obtain ⟨message, hmsg, hmem⟩ := mem_flatMap.mp hblock
  obtain ⟨token, htoken, heq⟩ := mem_filterMap.mp hextracted
  dsimp only at heq
  split at heq
  · obtain rfl := Option.some.inj heq
    have hquoted : blockContent block ∈ quotedTexts block := by
      cases block <;> simp [blockContent, quotedTexts]
    have hcontent := h message hmsg block hmem _ hquoted
    have htrimmed : trimMatches isPunctuation token <:+: token := by
      have hend : trimMatches isPunctuation token <+: token.dropWhile isPunctuation := by
        rw [← reverse_suffix, trimMatches, reverse_reverse]
        exact dropWhile_suffix isPunctuation
      exact hend.isInfix.trans (dropWhile_suffix isPunctuation).isInfix
    rw [String.toList_ofList]
    exact not_infix_within hcontent (htrimmed.trans (infix_of_mem_splitWhitespace htoken))
  · cases heq

theorem not_infix_tool (h : Unquoted pattern messages) {name : String}
    (hname : name ∈ sortedDistinct (mentionedTools messages)) : ¬pattern <:+: name.toList := by
  obtain ⟨block, hblock, heq⟩ := mem_filterMap.mp (mem_of_sortedDistinct hname)
  obtain ⟨message, hmsg, hmem⟩ := mem_flatMap.mp hblock
  have hquotes := h message hmsg block hmem
  cases block with
  | text t => cases heq
  | thinking t signature => cases heq
  | toolUse id other input =>
    obtain rfl := Option.some.inj heq
    exact hquotes other (by simp [quotedTexts])
  | toolResult id other output isError =>
    obtain rfl := Option.some.inj heq
    exact hquotes other (by simp [quotedTexts])

/-- A line before the timeline: it has a mark only if one is quoted, and does not
look like the heading. -/
structure HeadLine (messages : List ConversationMessage) (line : String) : Prop where
  quotes : ∀ pattern, Mark pattern → Unquoted pattern messages → ¬pattern <:+: line.toList
  start : ¬headingWords <+: line.toList

theorem HeadLine.of_words (words rest : List Char) (heq : line.toList = words ++ rest)
    (hfixed : Fixed words) (hstart : ¬headingWords <+: words ∧ ¬words <+: headingWords)
    (hrest : ∀ pattern, Mark pattern → Unquoted pattern messages → ¬pattern <:+: rest) :
    HeadLine messages line := by
  refine ⟨fun pattern hmark h => ?_, fun hheading => ?_⟩
  · rw [heq]
    exact hmark.not_infix_append words hfixed (hrest pattern hmark h)
  · rw [heq] at hheading
    rcases prefix_or_prefix_of_prefix hheading (prefix_append words rest) with h | h
    · exact hstart.1 h
    · exact hstart.2 h

theorem HeadLine.of_fixed (hfixed : Fixed line.toList)
    (hstart : ¬headingWords <+: line.toList ∧ ¬line.toList <+: headingWords) :
    HeadLine messages line :=
  .of_words line.toList [] (by simp) hfixed hstart fun _ hmark _ h =>
    hmark.ne_nil (infix_nil.mp h)

theorem headLine_items (heading : String) (hheading : HeadLine messages heading)
    (hitems : ∀ item ∈ items, ∀ pattern, Mark pattern → Unquoted pattern messages →
      ¬pattern <:+: item.toList) : ∀ line ∈ headedItems heading items, HeadLine messages line := by
  intro line hline
  unfold headedItems at hline
  split at hline
  · cases hline
  · rcases mem_cons.mp hline with rfl | hline
    · exact hheading
    · obtain ⟨item, hitem, rfl⟩ := mem_map.mp hline
      exact .of_words "  - ".toList item.toList (by simp) (by decide) (by decide)
        (hitems item hitem)

theorem headLine_listed (words : String) (hfixed : Fixed words.toList)
    (hstart : ¬headingWords <+: words.toList ∧ ¬words.toList <+: headingWords)
    (hitems : ∀ item ∈ items, ∀ pattern, Mark pattern → Unquoted pattern messages →
      ¬pattern <:+: item.toList) : HeadLine messages (words ++ joinText ", " items ++ ".") := by
  refine .of_words words.toList ((joinText ", " items).toList ++ ['.']) (by simp) hfixed hstart ?_
  intro pattern hmark h
  have hnil : ¬pattern <:+: [] := fun hwithin => hmark.ne_nil (infix_nil.mp hwithin)
  exact not_infix_separated (hmark.apart '.' (by simp)) hmark.ne_nil
    (not_infix_listed hmark fun item hitem => hitems item hitem pattern hmark h) hnil

end Quotes

section Summary

theorem headLine_scope {messages : List ConversationMessage} (total users assistants tools : Nat) :
    HeadLine messages ("- Scope: " ++ toString total ++ " earlier messages compacted (user=" ++
      toString users ++ ", assistant=" ++ toString assistants ++ ", tool=" ++ toString tools ++
        ").") := by
  have hfixed : Fixed ((toString total).toList ++ (" earlier messages compacted (user=".toList ++
      ((toString users).toList ++ (", assistant=".toList ++ ((toString assistants).toList ++
        (", tool=".toList ++ ((toString tools).toList ++ ").".toList))))))) := by
    refine (fixed_toString total).append (Fixed.append (by decide) ?_)
    refine (fixed_toString users).append (Fixed.append (by decide) ?_)
    refine (fixed_toString assistants).append (Fixed.append (by decide) ?_)
    exact (fixed_toString tools).append (by decide)
  exact .of_words "- Scope: ".toList _ (by simp) (by decide) (by decide)
    fun pattern hmark _ => hmark.not_infix_fixed hfixed

theorem summarizeMessages_eq (messages : List ConversationMessage) :
    ∃ head : List String, summarizeMessages messages =
      joinText "\n" ("<summary>" :: ("Conversation summary:" :: head ++ "- Key timeline:" ::
        messages.map timelineEntry) ++ ["</summary>"]) ∧
      ∀ line ∈ head, HeadLine messages line := by
  unfold summarizeMessages
  dsimp only
  refine ⟨_ :: _ ++ _ ++ _ ++ _ ++ _, by
    simp only [cons_append, nil_append, append_assoc]; rfl, ?_⟩
  intro line hline
  simp only [cons_append, mem_cons, mem_append] at hline
  rcases hline with rfl | ((((htools | hrequests) | hpend) | hfiles) | hcur)
  · exact headLine_scope _ _ _ _
  · split at htools
    · cases htools
    · obtain rfl := mem_singleton.mp htools
      exact headLine_listed _ (by decide) (by decide)
        fun name hname pattern _ h => not_infix_tool h hname
  · exact headLine_items _ (.of_fixed (by decide) (by decide))
      (fun item hitem pattern hmark h => not_infix_recent hmark h .user 3 hitem) line hrequests
  · exact headLine_items _ (.of_fixed (by decide) (by decide))
      (fun item hitem pattern hmark h => not_infix_pending hmark h hitem) line hpend
  · split at hfiles
    · cases hfiles
    · obtain rfl := mem_singleton.mp hfiles
      exact headLine_listed _ (by decide) (by decide)
        fun file hfile pattern _ h => not_infix_file h hfile
  · cases hwork : inferCurrentWork messages with
    | none =>
      rw [hwork] at hcur
      cases hcur
    | some currentWork =>
      rw [hwork] at hcur
      obtain rfl := mem_singleton.mp hcur
      exact .of_words "- Current work: ".toList currentWork.toList (by simp) (by decide)
        (by decide) fun pattern hmark h => not_infix_current hmark h hwork

end Summary

theorem replaceFrom_skip (pattern replacement cs : List Char) :
    replaceFrom pattern replacement cs.length cs = [] := by
  induction cs with
  | nil => rfl
  | cons c cs ih => rw [length_cons, replaceFrom, ih]

theorem replaceText_self {pattern : List Char} (hne : pattern ≠ []) (replacement : List Char) :
    replaceText pattern replacement pattern = replacement := by
  cases pattern with
  | nil => exact absurd rfl hne
  | cons c pattern =>
    have hstart : (c :: pattern).isPrefixOf (c :: pattern) = true :=
      isPrefixOf_iff_prefix.mpr prefix_rfl
    rw [replaceText, replaceFrom, if_pos hstart, length_cons, Nat.add_sub_cancel,
      replaceFrom_skip, append_nil]

variable {content : List Char} {tag summary : String}

theorem stripTagBlock_untagged (h : ¬openTag tag <:+: content ∨ ¬closeTag tag <:+: content) :
    stripTagBlock content tag = content := by
  rw [← splitOnce_eq_none_iff, ← splitOnce_eq_none_iff] at h
  exact stripTagBlock_of_none h

theorem extractTagBlock_untagged (h : ¬closeTag tag <:+: content) :
    extractTagBlock content tag = none := by
  unfold extractTagBlock
  cases hopen : splitOnce (openTag tag) content with
  | none => rfl
  | some parts =>
    have hafter : parts.2 <:+: content := by
      rw [splitOnce_eq hopen]
      exact (suffix_append _ _).isInfix
    have hnone := splitOnce_eq_none_iff.mpr (not_infix_within h hafter)
    simp [hnone]

theorem formatCompactSummary_plain
    (hanalysis : ¬openTag "analysis" <:+: summary.toList ∨ ¬closeTag "analysis" <:+: summary.toList)
    (hsummary : ¬closeTag "summary" <:+: summary.toList) :
    formatCompactSummary summary = String.ofList (trim (collapseBlankLines summary.toList)) := by
  unfold formatCompactSummary
  dsimp only
  rw [stripTagBlock_untagged hanalysis, extractTagBlock_untagged hsummary]

theorem formatCompactSummary_block {body : List Char}
    (heq : summary.toList = openTag "summary" ++ '\n' :: (body ++ '\n' :: closeTag "summary"))
    (hanalysis : ¬openTag "analysis" <:+: summary.toList ∨ ¬closeTag "analysis" <:+: summary.toList)
    (hbody : ¬closeTag "summary" <:+: body) :
    formatCompactSummary summary = String.ofList (trim (collapseBlankLines
      ("Summary:\n".toList ++ trim ('\n' :: body ++ ['\n'])))) := by
  have hne : closeTag "summary" ≠ [] := by decide
  have hopen : splitOnce (openTag "summary") summary.toList =
      some ([], '\n' :: (body ++ '\n' :: closeTag "summary")) := by
    rw [heq]
    exact splitOnce_start (by decide) _
  have hinner : ¬closeTag "summary" <:+: '\n' :: body := by
    have hnil : ¬closeTag "summary" <:+: [] := fun h => hne (infix_nil.mp h)
    exact not_infix_separated (by decide) hne hnil hbody
  have hclose : splitOnce (closeTag "summary") ('\n' :: (body ++ '\n' :: closeTag "summary")) =
      some ('\n' :: body ++ ['\n'], []) := by
    have hend := splitOnce_start hne []
    rw [append_nil] at hend
    rw [← cons_append, splitOnce_separated (by decide) hne hinner, hend]
    rfl
  have hblock : extractTagBlock summary.toList "summary" = some ('\n' :: body ++ ['\n']) := by
    simp [extractTagBlock, hopen, hclose]
  have hwhole : openTag "summary" ++ ('\n' :: body ++ ['\n']) ++ closeTag "summary" =
      summary.toList := by
    rw [heq]
    simp
  unfold formatCompactSummary
  dsimp only
  rw [stripTagBlock_untagged hanalysis, hblock]
  dsimp only
  rw [hwhole, replaceText_self]
  rw [heq]
  simp [openTag]

section Plain

variable {messages : List ConversationMessage}

def entryLines (messages : List ConversationMessage) : List (List Char) :=
  messages.flatMap fun message => trimmedLines (timelineEntry message).toList

/-- No quoted text closes the summary or has a heading, and there are not both tags
of an analysis. -/
structure PlainQuotes (messages : List ConversationMessage) : Prop where
  analysis : Unquoted (openTag "analysis") messages ∨ Unquoted (closeTag "analysis") messages
  summary : Unquoted (closeTag "summary") messages
  heading : Unquoted headingMark messages

theorem heading_not_mem_entries (h : Unquoted headingMark messages) :
    timelineHeading ∉ entryLines messages := by
  intro hmem
  obtain ⟨message, hmsg, hline⟩ := mem_flatMap.mp hmem
  refine heading_not_mem (fun hstart => ?_) (not_infix_entry mark_headingMark h hmsg) hline
  have hblank : "  ".toList <+: (timelineEntry message).toList :=
    ⟨"- ".toList ++ ((roleName message.role).toList ++ (": ".toList ++
      (joinText " | " (message.blocks.map summarizeBlock)).toList)), by simp [timelineEntry]⟩
  rcases prefix_or_prefix_of_prefix hstart hblank with hshort | hshort
  · exact absurd hshort (by decide)
  · exact absurd hshort (by decide)

variable {line : String}

theorem heading_not_mem_head (h : Unquoted headingMark messages) (hline : HeadLine messages line) :
    timelineHeading ∉ trimmedLines line.toList :=
  heading_not_mem hline.start (hline.quotes headingMark mark_headingMark h)

theorem newSummary_parts (messages : List ConversationMessage) :
    ∃ body : List Char,
      (summarizeMessages messages).toList =
        openTag "summary" ++ '\n' :: (body ++ '\n' :: closeTag "summary") ∧
      body.head? = some 'C' ∧
      (∀ pattern, Mark pattern → '\n' ∉ pattern → Unquoted pattern messages →
        ¬pattern <:+: body) ∧
      (Unquoted headingMark messages → timelineLines false (trimmedLines body) =
        (entryLines messages).takeWhile (· ≠ [])) := by
  obtain ⟨head, hsummary, hhead⟩ := summarizeMessages_eq messages
  let lines := "Conversation summary:" :: head ++ "- Key timeline:" :: messages.map timelineEntry
  have hlines : lines ≠ [] := by simp [lines]
  refine ⟨(joinText "\n" lines).toList, ?_, ?_, ?_, ?_⟩
  · have hjoined : summarizeMessages messages =
        "<summary>" ++ "\n" ++ (joinText "\n" lines ++ "\n" ++ "</summary>") := by
      rw [hsummary, joinText]
      change "\n".intercalate ("<summary>" :: (lines ++ ["</summary>"])) = _
      rw [String.intercalate_cons_of_ne_nil (by simp),
        String.intercalate_append_of_ne_nil hlines (by simp), String.intercalate_singleton]
      rfl
    rw [hjoined]
    simp [openTag, closeTag]
  · cases hrest : head ++ "- Key timeline:" :: messages.map timelineEntry with
    | nil => simp at hrest
    | cons next rest =>
      simp [lines, joinText, hrest, String.toList_intercalate]
  · intro pattern hmark hnewline h
    refine not_infix_lines hnewline hmark.ne_nil fun line hline => ?_
    rcases mem_append.mp hline with hline | hline
    · rcases mem_cons.mp hline with rfl | hline
      · exact hmark.not_infix_fixed (by decide)
      · exact (hhead line hline).quotes pattern hmark h
    · rcases mem_cons.mp hline with rfl | hline
      · exact hmark.not_infix_fixed (by decide)
      · obtain ⟨message, hmsg, rfl⟩ := mem_map.mp hline
        exact not_infix_entry hmark h hmsg
  · intro h
    have hbefore : timelineHeading ∉ ("Conversation summary:" :: head).flatMap fun line =>
        trimmedLines line.toList := by
      intro hmem
      obtain ⟨line, hline, hheading⟩ := mem_flatMap.mp hmem
      rcases mem_cons.mp hline with rfl | hline
      · exact absurd hheading (by decide)
      · exact heading_not_mem_head h (hhead line hline) hheading
    have htitle : trimmedLines "- Key timeline:".toList = [timelineHeading] := by decide
    have hents : (messages.map timelineEntry).flatMap (fun line => trimmedLines line.toList) =
        entryLines messages := flatMap_map _ _ _
    rw [trimmedLines_joined hlines, flatMap_append, timelineLines_skip hbefore,
      flatMap_cons, htitle, hents, singleton_append, timelineLines, if_pos rfl]
    exact timelineLines_take (heading_not_mem_entries h)

theorem extractTimeline_plain (h : PlainQuotes messages) :
    extractSummaryTimeline (formatCompactSummary (summarizeMessages messages)) =
      ((entryLines messages).takeWhile (· ≠ [])).map String.ofList := by
  obtain ⟨body, hsummary, hhead, hunquoted, htimeline⟩ := newSummary_parts messages
  have hclosed := hunquoted _ mark_closeSummary (by decide) h.summary
  -- What the summary and the shown text contain, the body contains.
  have hwhole {pattern : List Char} (hmark : Mark pattern) (hnewline : '\n' ∉ pattern)
      (hopen : ¬pattern <:+: openTag "summary") (hclose : ¬pattern <:+: closeTag "summary")
      (hquotes : Unquoted pattern messages) :
      ¬pattern <:+: (summarizeMessages messages).toList := by
    have hinner := not_infix_separated hnewline hmark.ne_nil
      (hunquoted pattern hmark hnewline hquotes) hclose
    rw [hsummary]
    exact not_infix_separated hnewline hmark.ne_nil hopen hinner
  have hshown {pattern : List Char} (hmark : Mark pattern) (hnewline : '\n' ∉ pattern)
      (hquotes : Unquoted pattern messages) :
      ¬pattern <:+: trim (collapseBlankLines
        ("Summary:\n".toList ++ trim ('\n' :: body ++ ['\n']))) := by
    have hnil : ¬pattern <:+: [] := fun hwithin => hmark.ne_nil (infix_nil.mp hwithin)
    have hbody := hunquoted pattern hmark hnewline hquotes
    have hblock : ¬pattern <:+: '\n' :: body ++ ['\n'] :=
      not_infix_separated hnewline hmark.ne_nil
        (not_infix_separated hnewline hmark.ne_nil hnil hbody) hnil
    have htext := not_infix_separated hnewline hmark.ne_nil
      (hmark.not_infix_fixed (show Fixed "Summary:".toList by decide))
      (not_infix_within hblock (infix_trim _))
    exact not_infix_shown hnewline hmark.ne_nil (by simpa using htext)
  have hanalysis : ¬openTag "analysis" <:+: (summarizeMessages messages).toList ∨
      ¬closeTag "analysis" <:+: (summarizeMessages messages).toList :=
    h.analysis.imp
      (hwhole mark_openAnalysis (by decide) (by decide) (by decide))
      (hwhole mark_closeAnalysis (by decide) (by decide) (by decide))
  have hfirst := formatCompactSummary_block hsummary hanalysis hclosed
  have hsecond : formatCompactSummary (formatCompactSummary (summarizeMessages messages)) =
      String.ofList (trim (collapseBlankLines (formatCompactSummary
        (summarizeMessages messages)).toList)) := by
    refine formatCompactSummary_plain ?_ ?_
    · rw [hfirst, String.toList_ofList]
      exact h.analysis.imp (hshown mark_openAnalysis (by decide))
        (hshown mark_closeAnalysis (by decide))
    · rw [hfirst, String.toList_ofList]
      exact hshown mark_closeSummary (by decide) h.summary
  have htrimmed : trim ('\n' :: body ++ ['\n']) = trimEnd body := by
    have hnewline : isWhitespace '\n' = true := by decide
    have hstart : ∀ c ∈ (body ++ ['\n']).head?, isWhitespace c = false := by
      simp [head?_append, hhead, isWhitespace]
    have hbreak : trim ('\n' :: body ++ ['\n']) = trim (body ++ ['\n']) := by
      simp [trim, hnewline]
    rw [hbreak, trim_of_head hstart, trimEnd_concat hnewline]
  have hlines : timelineLines false (trimmedLines ("Summary:\n".toList ++ trimEnd body)) =
      (entryLines messages).takeWhile (· ≠ []) := by
    have htitle : timelineHeading ∉ trimmedLines "Summary:".toList := by decide
    obtain ⟨k, hk⟩ := trimmedLines_trimEnd body
    have hsplit : "Summary:\n".toList ++ trimEnd body =
        "Summary:".toList ++ '\n' :: trimEnd body := by simp
    rw [hsplit, trimmedLines_append, timelineLines_skip htitle, ← timelineLines_blanks false _ k,
      ← hk, htimeline h.heading]
  have hshownFirst : timelineLines false
      (trimmedLines (formatCompactSummary (summarizeMessages messages)).toList) =
        (entryLines messages).takeWhile (· ≠ []) := by
    rw [hfirst, String.toList_ofList, htrimmed, timelineLines_shown (by simp [isWhitespace]), hlines]
  have hblank : ∀ c ∈ (formatCompactSummary (summarizeMessages messages)).toList.head?,
      isWhitespace c = false := by
    rw [hfirst, String.toList_ofList]
    exact fun c hc => head?_trim hc
  obtain ⟨k, hk⟩ := trimmedLines_textLines
    (formatCompactSummary (formatCompactSummary (summarizeMessages messages))).toList
  rw [extractSummaryTimeline, timelineFrom_eq, ← timelineLines_blanks false _ k, ← hk, hsecond,
    String.toList_ofList, timelineLines_shown hblank, hshownFirst]

theorem mem_highlightsFrom {inTimeline : Bool} {lines : List (List Char)} {item : String}
    (h : item ∈ highlightsFrom inTimeline lines) :
    ∃ line ∈ lines, item = String.ofList (trimEnd line) := by
  induction lines generalizing inTimeline with
  | nil => cases h
  | cons line rest ih =>
    have hlater {inside : Bool} (hrest : item ∈ highlightsFrom inside rest) :
        ∃ other ∈ line :: rest, item = String.ofList (trimEnd other) := by
      obtain ⟨other, hmem, heq⟩ := ih hrest
      exact ⟨other, mem_cons_of_mem line hmem, heq⟩
    rw [highlightsFrom] at h
    split at h
    · exact hlater h
    · split at h
      · exact hlater h
      · split at h
        · exact hlater h
        · rcases mem_cons.mp h with rfl | h
          · exact ⟨line, mem_cons_self, rfl⟩
          · exact hlater h

theorem heading_not_mem_highlights (heading : String)
    (htitle : timelineHeading ∉ trimmedLines heading.toList) (summary : String)
    (h : line ∈ headedLines heading (extractSummaryHighlights summary)) :
    timelineHeading ∉ trimmedLines line.toList := by
  unfold headedLines at h
  split at h
  · cases h
  · rcases mem_cons.mp h with rfl | h
    · exact htitle
    · obtain ⟨item, hitem, rfl⟩ := mem_map.mp h
      obtain ⟨source, hsource, rfl⟩ := mem_highlightsFrom hitem
      have hline : '\n' ∉ trimEnd source := by
        intro hmem
        have hwithin : '\n' ∈ source.reverse :=
          (dropWhile_suffix isWhitespace).subset (mem_reverse.mp hmem)
        exact newline_not_mem_textLines hsource (mem_reverse.mp hwithin)
      refine heading_not_mem (fun hstart => ?_) (fun hlater => ?_)
      · have hblank : "  ".toList <+: ("  " ++ String.ofList (trimEnd source)).toList := by simp
        rcases prefix_or_prefix_of_prefix hstart hblank with hshort | hshort
        · exact absurd hshort (by decide)
        · exact absurd hshort (by decide)
      · have hmem : '\n' ∈ ("  " ++ String.ofList (trimEnd source)).toList :=
          hlater.subset (by decide)
        simp [hline] at hmem

end Plain

section Merged

variable {messages : List ConversationMessage}

def indented (line : List Char) : List Char := "  ".toList ++ line

variable {line : List Char}

theorem trimEnd_indented (hne : line ≠ []) (h : trimEnd line = line) :
    trimEnd (indented line) = indented line := by
  obtain ⟨last, hlast⟩ : ∃ last, line.getLast? = some last :=
    Option.ne_none_iff_exists'.mp (mt getLast?_eq_none_iff.mp hne)
  have hblank : isWhitespace last = false := by
    have hhead := head?_dropWhile_not isWhitespace line.reverse
    have hsame : line.reverse.dropWhile isWhitespace = line.reverse := by
      rw [← reverse_inj, reverse_reverse]
      exact h
    rw [hsame, head?_reverse, hlast] at hhead
    exact hhead
  obtain ⟨before, rfl⟩ := getLast?_eq_some_iff.mp hlast
  simp [trimEnd, indented, hblank]

theorem entryLine_spec (h : line ∈ entryLines messages) :
    '\n' ∉ line ∧ trimEnd line = line := by
  obtain ⟨message, -, hline⟩ := mem_flatMap.mp h
  obtain ⟨part, hpart, rfl⟩ := mem_map.mp hline
  refine ⟨fun hmem => ?_, trimEnd_trimEnd part⟩
  have hwithin : '\n' ∈ part.reverse :=
    (dropWhile_suffix isWhitespace).subset (mem_reverse.mp hmem)
  have hnot := not_of_mem_splitOnP hpart '\n' (mem_reverse.mp hwithin)
  simp at hnot

theorem trimmedLines_indented (h : line ∈ entryLines messages) (hne : line ≠ []) :
    trimmedLines (indented line) = [indented line] := by
  obtain ⟨hnewline, htrimmed⟩ := entryLine_spec h
  have hline : '\n' ∉ indented line := by simp [indented, hnewline]
  rw [trimmedLines_of_line hline, trimEnd_indented hne htrimmed]

theorem heading_not_mem_indented (lines : List (List Char)) :
    timelineHeading ∉ lines.map indented ++ [closeTag "summary"] := by
  rw [mem_append, mem_map, mem_singleton, not_or]
  refine ⟨?_, by decide⟩
  rintro ⟨line, -, heq⟩
  have hhead : (indented line).head? = timelineHeading.head? := by rw [heq]
  have hblank : (indented line).head? = some ' ' := by simp [indented]
  have hdash : timelineHeading.head? = some '-' := by decide
  rw [hblank, hdash] at hhead
  cases hhead

theorem afterLast_merged (existing : String) (h : PlainQuotes messages) :
    afterLastTimeline (trimmedLines
      (mergeCompactSummaries (some existing) (summarizeMessages messages)).toList) =
        if (entryLines messages).takeWhile (· ≠ []) = [] then []
        else ((entryLines messages).takeWhile (· ≠ [])).map indented ++ [closeTag "summary"] := by
  let highlights := headedLines "- Previously compacted context:"
      (extractSummaryHighlights existing) ++
    headedLines "- Newly compacted context:"
      (extractSummaryHighlights (formatCompactSummary (summarizeMessages messages)))
  have hhighlights : ∀ line ∈ highlights, timelineHeading ∉ trimmedLines line.toList := by
    intro line hline
    rcases mem_append.mp hline with hline | hline
    · exact heading_not_mem_highlights _ (by decide) _ hline
    · exact heading_not_mem_highlights _ (by decide) _ hline
  have hbefore : timelineHeading ∉ (["<summary>", "Conversation summary:"] ++ highlights).flatMap
      fun line => trimmedLines line.toList := by
    intro hmem
    obtain ⟨line, hline, hheading⟩ := mem_flatMap.mp hmem
    rcases mem_append.mp hline with hline | hline
    · rcases mem_cons.mp hline with rfl | hline
      · exact absurd hheading (by decide)
      · obtain rfl := mem_singleton.mp hline
        exact absurd hheading (by decide)
    · exact hhighlights line hline hheading
  have htag : trimmedLines "</summary>".toList = [closeTag "summary"] := by decide
  have htitle : trimmedLines "- Key timeline:".toList = [timelineHeading] := by decide
  have hmerged : mergeCompactSummaries (some existing) (summarizeMessages messages) =
      joinText "\n" (["<summary>", "Conversation summary:"] ++ highlights ++
        headedLines "- Key timeline:"
          (((entryLines messages).takeWhile (· ≠ [])).map String.ofList) ++ ["</summary>"]) := by
    simp [mergeCompactSummaries, highlights, extractTimeline_plain h]
  rw [hmerged, trimmedLines_joined (by simp), flatMap_append, flatMap_append,
    flatMap_singleton, htag]
  split
  · rename_i hnone
    rw [hnone]
    have habsent : timelineHeading ∉ (["<summary>", "Conversation summary:"] ++ highlights).flatMap
        (fun line => trimmedLines line.toList) ++ [closeTag "summary"] := by
      intro hmem
      rcases mem_append.mp hmem with hmem | hmem
      · exact hbefore hmem
      · exact absurd (mem_singleton.mp hmem) (by decide)
    have hnil : headedLines "- Key timeline:" (([] : List (List Char)).map String.ofList) = [] := rfl
    rw [hnil, flatMap_nil, append_nil, afterLastTimeline,
      if_neg (mt contains_iff_mem.mp habsent)]
  · rename_i hsome
    have hindent : ((((entryLines messages).takeWhile (· ≠ [])).map String.ofList).map
        ("  " ++ ·)).flatMap (fun line => trimmedLines line.toList) =
          ((entryLines messages).takeWhile (· ≠ [])).map indented := by
      have hone : ∀ line ∈ (entryLines messages).takeWhile (· ≠ []),
          trimmedLines ("  " ++ String.ofList line).toList = [indented line] := by
        intro line hline
        have hne : line ≠ [] := by simpa using mem_takeWhile_imp hline
        have htext : ("  " ++ String.ofList line).toList = indented line := by simp [indented]
        rw [htext]
        exact trimmedLines_indented ((List.takeWhile_prefix _).subset hline) hne
      rw [flatMap_map, flatMap_map, flatMap_congr hone, ← map_eq_flatMap]
    have hitems : headedLines "- Key timeline:"
        (((entryLines messages).takeWhile (· ≠ [])).map String.ofList) =
          "- Key timeline:" :: (((entryLines messages).takeWhile (· ≠ [])).map String.ofList).map
            ("  " ++ ·) := by
      rw [headedLines, if_neg (by simpa using hsome)]
    rw [hitems, flatMap_cons, htitle, hindent, append_assoc, append_assoc,
      singleton_append]
    exact afterLastTimeline_eq _ (heading_not_mem_indented _)

end Merged

section Repeated

variable {session : Session} {config : CompactionConfig} {now : Nat} {result : CompactionResult}
  {first continuation : ConversationMessage} {removed preserved : List ConversationMessage}

/-- Every line of every entry, but for blank lines, stands after the last heading, in
the order of the messages. -/
def TimelineKept (messages : List ConversationMessage) (summary : String) : Prop :=
  (((entryLines messages).filter (· ≠ [])).map indented).Sublist
    (afterLastTimeline (trimmedLines summary.toList))

instance (messages : List ConversationMessage) (summary : String) :
    Decidable (TimelineKept messages summary) :=
  inferInstanceAs (Decidable (List.Sublist _ _))

/-- No entry goes on, and none follows, behind a blank line. -/
def Unbroken (messages : List ConversationMessage) : Prop :=
  ∀ line ∈ (entryLines messages).dropWhile (· ≠ []), line = []

instance (messages : List ConversationMessage) : Decidable (Unbroken messages) :=
  inferInstanceAs (Decidable (∀ _ ∈ _, _))

def entryStart (message : ConversationMessage) : List Char :=
  "  - ".toList ++ (roleName message.role).toList ++ [':']

/-- Each message has a line of its own that names its role, in their order. -/
def OneEntryEach (messages : List ConversationMessage) (summary : String) : Prop :=
  ∃ lines, List.Forall₂ (fun line message => indented (entryStart message) <+: line) lines messages ∧
    lines.Sublist (afterLastTimeline (trimmedLines summary.toList))

variable {words : List Char} {last : Char}

theorem trimEnd_keeps (hlast : last ∈ words.getLast?) (h : isWhitespace last = false)
    (cs : List Char) : words <+: trimEnd (words ++ cs) := by
  obtain ⟨before, rfl⟩ := getLast?_eq_some_iff.mp hlast
  rw [trimEnd, reverse_append, dropWhile_append]
  split
  · simp [h]
  · simp

theorem trimmedLines_words (hline : '\n' ∉ words) (hlast : last ∈ words.getLast?)
    (h : isWhitespace last = false) (cs : List Char) :
    ∃ line rest, trimmedLines (words ++ cs) = line :: rest ∧ words <+: line := by
  have hsplit : ∃ line rest, (words ++ cs).splitOnP (· = '\n') = (words ++ line) :: rest := by
    clear hlast
    induction words with
    | nil =>
      cases hparts : cs.splitOnP (· = '\n') with
      | nil => exact absurd hparts (splitOnP_ne_nil _ cs)
      | cons first more => exact ⟨first, more, hparts⟩
    | cons c words ih =>
      obtain ⟨line, rest, hrest⟩ := ih fun hmem => hline (mem_cons_of_mem c hmem)
      have hc : ¬decide (c = '\n') = true := by
        intro hnewline
        exact hline (of_decide_eq_true hnewline ▸ mem_cons_self)
      exact ⟨line, rest, by simp [splitOnP_cons_eq_if_modifyHead, hc, hrest]⟩
  obtain ⟨line, rest, hparts⟩ := hsplit
  exact ⟨trimEnd (words ++ line), rest.map trimEnd, by simp [trimmedLines, hparts],
    trimEnd_keeps hlast h line⟩

theorem entryLines_cons (message : ConversationMessage) (messages : List ConversationMessage) :
    ∃ line rest, entryLines (message :: messages) = line :: (rest ++ entryLines messages) ∧
      entryStart message <+: line := by
  have hfixed : '\n' ∉ entryStart message := by
    cases hrole : message.role <;> simp [entryStart, roleName, hrole]
  have htext : (timelineEntry message).toList = entryStart message ++
      ' ' :: (joinText " | " (message.blocks.map summarizeBlock)).toList := by
    simp [timelineEntry, entryStart]
  have hlast : ':' ∈ (entryStart message).getLast? := by
    rw [entryStart, getLast?_concat]
    rfl
  obtain ⟨line, rest, hlines, hstart⟩ := trimmedLines_words hfixed hlast (by decide)
    (' ' :: (joinText " | " (message.blocks.map summarizeBlock)).toList)
  refine ⟨line, rest, ?_, hstart⟩
  rw [entryLines, flatMap_cons, htext, hlines]
  rfl

theorem entry_lines_each (messages : List ConversationMessage) :
    ∃ lines, List.Forall₂ (fun line message => entryStart message <+: line) lines messages ∧
      lines.Sublist ((entryLines messages).filter (· ≠ [])) := by
  induction messages with
  | nil => exact ⟨[], .nil, List.Sublist.slnil⟩
  | cons message messages ih =>
    obtain ⟨lines, hstarts, hlines⟩ := ih
    obtain ⟨line, rest, heq, hstart⟩ := entryLines_cons message messages
    have hne : line ≠ [] := by
      rintro rfl
      simp [entryStart] at hstart
    refine ⟨line :: lines, .cons hstart hstarts, ?_⟩
    rw [heq, filter_cons_of_pos (by simpa using hne), filter_append]
    exact (hlines.trans (sublist_append_right _ _)).cons_cons line

theorem TimelineKept.one_entry_each {messages : List ConversationMessage}
    (h : TimelineKept messages summary) : OneEntryEach messages summary := by
  obtain ⟨lines, hstarts, hlines⟩ := entry_lines_each messages
  refine ⟨lines.map indented, ?_, (hlines.map indented).trans h⟩
  rw [forall₂_map_left_iff]
  exact hstarts.imp fun line message hstart => (prefix_append_right_inj _).mpr hstart

theorem filter_eq_takeWhile (lines : List (List Char)) :
    lines.filter (· ≠ []) =
      lines.takeWhile (· ≠ []) ++ (lines.dropWhile (· ≠ [])).filter (· ≠ []) := by
  have htaken : (lines.takeWhile (· ≠ [])).filter (· ≠ []) = lines.takeWhile (· ≠ []) :=
    filter_eq_self.mpr fun line hline => by simpa using mem_takeWhile_imp hline
  have hparts : lines.takeWhile (· ≠ []) ++ lines.dropWhile (· ≠ []) = lines :=
    takeWhile_append_dropWhile
  conv_lhs => rw [← hparts, filter_append, htaken]

theorem compactSession_removed (hres : compactSession session config now = some result)
    (hshould : shouldCompact session config = true)
    (hmsgs : session.messages = first :: (removed ++ preserved))
    (hsummary : (extractExistingCompactedSummary first).isSome = true)
    (hpreserved : result.compactedSession.messages = continuation :: preserved) :
    ∃ existing, result.summary =
      mergeCompactSummaries (some existing) (summarizeMessages removed) := by
  obtain ⟨existing, hexisting⟩ := Option.isSome_iff_exists.mp hsummary
  have hfound : existingSummary session.messages = some existing := by
    rw [hmsgs]
    exact hexisting
  have hsummaryLen : compactedSummaryPrefixLen session.messages = 1 := by
    simp [compactedSummaryPrefixLen, hfound]
  have hlen := shouldCompact_length hshould
  unfold compactSession at hres
  rw [if_neg (by simp [hshould])] at hres
  dsimp only at hres
  split at hres
  · cases hres
  · rename_i keepFrom hwalk
    cases hres
    have hbounds := walkBack_ge (by omega) hwalk
    have hdrop : session.messages.drop keepFrom = preserved := (List.cons.inj hpreserved).2
    have hcut : keepFrom = removed.length + 1 := by
      have hleft := congrArg List.length hdrop
      have hall := congrArg List.length hmsgs
      rw [length_drop] at hleft
      rw [length_cons, length_append] at hall
      omega
    refine ⟨existing, ?_⟩
    have hremoved : (session.messages.take keepFrom).drop
        (compactedSummaryPrefixLen session.messages) = removed := by
      rw [hsummaryLen, hcut, hmsgs]
      simp
    change mergeCompactSummaries (existingSummary session.messages) (summarizeMessages _) = _
    rw [hremoved, hfound]

end Repeated

/-- Two messages after the summary, of two roles, and one that is preserved. -/
def newMessages (said : String) : List ConversationMessage :=
  [.userText said, ⟨.assistant, [.text "c"], none⟩]

def compactedBefore (said : String) : Session :=
  { Session.new 0 ⟨0, 0⟩ with
    messages := continuationMessage "old" true true :: (newMessages said ++ [.userText "d"]) }

theorem recognised_before : (extractExistingCompactedSummary
    (continuationMessage "old" true true)).isSome = true := by
  rw [extractExisting_continuation, Option.isSome_some]

theorem compactedBefore_run (said : String) :
    shouldCompact (compactedBefore said) ⟨1, 0⟩ = true ∧
    ∃ result continuation, compactSession (compactedBefore said) ⟨1, 0⟩ 1 = some result ∧
      result.compactedSession.messages = continuation :: [.userText "d"] := by
  have hsummaryLen : compactedSummaryPrefixLen (compactedBefore said).messages = 1 := by
    have hhead : (compactedBefore said).messages.head? =
        some (continuationMessage "old" true true) := rfl
    rw [compactedSummaryPrefixLen, existingSummary, hhead, Option.bind_some,
      if_pos recognised_before]
  have hshould : shouldCompact (compactedBefore said) ⟨1, 0⟩ = true := by
    rw [shouldCompact]
    dsimp only
    rw [hsummaryLen]
    simp [compactedBefore, newMessages]
  refine ⟨hshould, ?_⟩
  have hwalk : walkBack (compactedBefore said).messages
      (compactedSummaryPrefixLen (compactedBefore said).messages)
        ((compactedBefore said).messages.length - 1) = some 3 := by
    rw [hsummaryLen]
    rfl
  obtain ⟨result, summary, continuation, hres, -, hsession⟩ :=
    compactSession_eq 1 hshould hwalk
  exact ⟨result, _, hres, by rw [hsession]; rfl⟩

theorem plain_newMessages : PlainQuotes (newMessages "a") ∧ PlainQuotes (newMessages "a\n\nb") := by
  have hunquoted : ∀ said ∈ ["a", "a\n\nb"], ∀ pattern, pattern ∈
      [openTag "analysis", closeTag "summary", headingMark] →
        Unquoted pattern (newMessages said) := by
    unfold Unquoted
    decide
  have hplain (said : String) (hsaid : said ∈ ["a", "a\n\nb"]) : PlainQuotes (newMessages said) :=
    ⟨.inl (hunquoted said hsaid _ (by simp)), hunquoted said hsaid _ (by simp),
      hunquoted said hsaid _ (by simp)⟩
  exact ⟨hplain "a" (by simp), hplain "a\n\nb" (by simp)⟩

end DbClinic.Runtime
