import DbClinic.Runtime.Compaction
import DbClinic.Runtime.Trim

/-!
The texts around a summary. A block is stripped between the first opening and the
first closing tag, each searched from the start. A continuation message is
recognised by the sentences that are put after the summary, wherever they occur.
-/

namespace DbClinic.Runtime

open List

def HasBlock (content : List Char) (tag : String) : Prop :=
  ∃ before block after, content = before ++ openTag tag ++ block ++ closeTag tag ++ after

/-- A block is removed if there is one, and nothing else. -/
def StripsOnly (content : List Char) (tag : String) : Prop :=
  (HasBlock content tag → ∃ before block after,
    content = before ++ openTag tag ++ block ++ closeTag tag ++ after ∧
      stripTagBlock content tag = before ++ after) ∧
  (¬HasBlock content tag → stripTagBlock content tag = content)

/-- The first closing tag comes after the first opening one, or right before it
with no block after that. -/
def TagsOrdered (content : List Char) (tag : String) : Prop :=
  ∀ before after closed rest, splitOnce (openTag tag) content = some (before, after) →
    splitOnce (closeTag tag) content = some (closed, rest) →
      before.length + (openTag tag).length ≤ closed.length ∨
        (closed.length + (closeTag tag).length = before.length ∧ ¬HasBlock content tag)

variable {content before after closed rest : List Char} {tag : String}

theorem stripTagBlock_of_none
    (h : splitOnce (openTag tag) content = none ∨ splitOnce (closeTag tag) content = none) :
    stripTagBlock content tag = content := by
  unfold stripTagBlock
  rcases h with h | h
  · rw [h]
  · cases hopen : splitOnce (openTag tag) content with
    | none => rfl
    | some parts => rw [h]

theorem stripTagBlock_of_some (hopen : splitOnce (openTag tag) content = some (before, after))
    (hclose : splitOnce (closeTag tag) content = some (closed, rest)) :
    stripTagBlock content tag = before ++ rest := by
  unfold stripTagBlock
  rw [hopen, hclose]

theorem HasBlock.tags (h : HasBlock content tag) :
    openTag tag <:+: content ∧ closeTag tag <:+: content := by
  obtain ⟨before, block, after, rfl⟩ := h
  exact ⟨⟨before, block ++ closeTag tag ++ after, by simp⟩,
    ⟨before ++ openTag tag ++ block, after, by simp⟩⟩

theorem stripsOnly_of_none
    (h : splitOnce (openTag tag) content = none ∨ splitOnce (closeTag tag) content = none) :
    StripsOnly content tag := by
  have hnot : ¬HasBlock content tag := by
    intro hblock
    rcases h with h | h
    · exact splitOnce_eq_none_iff.mp h hblock.tags.1
    · exact splitOnce_eq_none_iff.mp h hblock.tags.2
  exact ⟨fun hblock => absurd hblock hnot, fun _ => stripTagBlock_of_none h⟩

theorem block_of_ordered (hopen : splitOnce (openTag tag) content = some (before, after))
    (hclose : splitOnce (closeTag tag) content = some (closed, rest))
    (h : before.length + (openTag tag).length ≤ closed.length) :
    ∃ block, content = before ++ openTag tag ++ block ++ closeTag tag ++ rest := by
  have hfirst := splitOnce_eq hopen
  have hsecond := splitOnce_eq hclose
  have hpre : before ++ openTag tag <+: closed := by
    refine prefix_of_prefix_length_le ⟨after, hfirst.symm⟩
      ⟨closeTag tag ++ rest, by rw [hsecond, append_assoc]⟩ ?_
    rw [length_append]
    exact h
  obtain ⟨block, rfl⟩ := hpre
  exact ⟨block, hsecond⟩

theorem rest_of_adjacent (hopen : splitOnce (openTag tag) content = some (before, after))
    (hclose : splitOnce (closeTag tag) content = some (closed, rest))
    (h : closed.length + (closeTag tag).length = before.length) : before ++ rest = content := by
  have hfirst := splitOnce_eq hopen
  have hsecond := splitOnce_eq hclose
  have heq : before = closed ++ closeTag tag := by
    have hboth : before ++ (openTag tag ++ after) = (closed ++ closeTag tag) ++ rest := by
      rw [← append_assoc, ← hfirst, hsecond]
    refine (append_inj hboth ?_).1
    rw [length_append]
    exact h.symm
  rw [heq, hsecond]

theorem stripsOnly_iff_ordered (content : List Char) (tag : String) :
    StripsOnly content tag ↔ TagsOrdered content tag := by
  cases hopen : splitOnce (openTag tag) content with
  | none =>
    refine iff_of_true (stripsOnly_of_none (.inl hopen)) ?_
    intro before after closed rest h
    rw [hopen] at h
    cases h
  | some opened =>
    cases hclose : splitOnce (closeTag tag) content with
    | none =>
      refine iff_of_true (stripsOnly_of_none (.inr hclose)) ?_
      intro before after closed rest _ h
      rw [hclose] at h
      cases h
    | some found =>
      obtain ⟨before, after⟩ := opened
      obtain ⟨closed, rest⟩ := found
      have hstrip := stripTagBlock_of_some hopen hclose
      have hlen := congrArg List.length (splitOnce_eq hclose)
      simp only [length_append] at hlen
      constructor
      · rintro ⟨hblock, hnone⟩ b a c r hb hc
        rw [hopen] at hb
        rw [hclose] at hc
        cases hb
        cases hc
        by_cases hhas : HasBlock content tag
        · -- What is left is shorter by the block, so the tags are in order.
          obtain ⟨first, block, last, heq, hleft⟩ := hblock hhas
          have hcontent := congrArg List.length heq
          have hres := congrArg List.length (hstrip.symm.trans hleft)
          simp only [length_append] at hcontent hres
          exact .inl (by omega)
        · have hres := congrArg List.length (hstrip.symm.trans (hnone hhas))
          simp only [length_append] at hres
          exact .inr ⟨by omega, hhas⟩
      · intro hordered
        rcases hordered before after closed rest hopen hclose with hlater | ⟨hadjacent, hhas⟩
        · obtain ⟨block, heq⟩ := block_of_ordered hopen hclose hlater
          exact ⟨fun _ => ⟨before, block, rest, heq, hstrip⟩,
            fun hnot => absurd ⟨before, block, rest, heq⟩ hnot⟩
        · exact ⟨fun hblock => absurd hblock hhas,
            fun _ => hstrip.trans (rest_of_adjacent hopen hclose hadjacent)⟩

theorem StripsOnly.sublist (h : StripsOnly content tag) :
    (stripTagBlock content tag).Sublist content := by
  by_cases hhas : HasBlock content tag
  · obtain ⟨before, block, after, heq, hleft⟩ := h.1 hhas
    have hparts : (before ++ after).Sublist
        (before ++ (openTag tag ++ block ++ closeTag tag ++ after)) :=
      (List.Sublist.refl before).append (sublist_append_right _ after)
    rw [hleft]
    conv_rhs => rw [heq]
    simpa only [append_assoc] using hparts
  · rw [h.2 hhas]

def formatStripped (withoutAnalysis : List Char) : String :=
  let formatted :=
    match extractTagBlock withoutAnalysis "summary" with
    | some content =>
      replaceText (openTag "summary" ++ content ++ closeTag "summary")
        ("Summary:\n".toList ++ trim content) withoutAnalysis
    | none => withoutAnalysis
  String.ofList (trim (collapseBlankLines formatted))

/-- What is shown comes from a part of the text, taken once. -/
def ShownOnce (summary : String) : Prop :=
  ∃ kept : List Char, kept.Sublist summary.toList ∧
    formatCompactSummary summary = formatStripped kept

/-- A block is removed and nothing else exactly if the tags are in order; then the
formatting duplicates nothing. -/
theorem strip_and_format_iff (content : List Char) (tag : String) (summary : String) :
    (StripsOnly content tag ↔ TagsOrdered content tag) ∧
    (TagsOrdered summary.toList "analysis" → ShownOnce summary) := by
  refine ⟨stripsOnly_iff_ordered content tag, fun hordered => ?_⟩
  exact ⟨stripTagBlock summary.toList "analysis",
    ((stripsOnly_iff_ordered summary.toList "analysis").mpr hordered).sublist, rfl⟩

/-- A closing tag before the opening one: what is between them is shown twice. -/
theorem closed_first_duplicates :
    ¬StripsOnly "</analysis>x<analysis>".toList "analysis" ∧
    formatCompactSummary "</analysis>x<analysis>" = "</analysis>xx<analysis>" := by
  have hstrip : stripTagBlock "</analysis>x<analysis>".toList "analysis" =
      "</analysis>xx<analysis>".toList := by decide
  refine ⟨fun h => ?_, by decide⟩
  have hlen := h.sublist.length_le
  rw [hstrip] at hlen
  exact absurd hlen (by decide)

/-- The sentence about preserved messages, and the one about the resumption, as they
are searched for. -/
def noteMarker : List Char := ("\n\n" ++ COMPACT_RECENT_MESSAGES_NOTE).toList

def resumeMarker : List Char := ("\n" ++ COMPACT_DIRECT_RESUME_INSTRUCTION).toList

def IsMarker (pattern : List Char) : Prop :=
  ∃ breaks words, pattern = breaks ++ words ∧ breaks ≠ [] ∧ (∀ c ∈ breaks, c = '\n') ∧
    ∀ c ∈ words, c ≠ '\n'

theorem isMarker_note : IsMarker noteMarker :=
  ⟨['\n', '\n'], COMPACT_RECENT_MESSAGES_NOTE.toList, by simp [noteMarker], by decide,
    forall_mem_of_all (by decide), forall_mem_of_all (all_toList_ofList (by decide))⟩

theorem resume_words : ∀ c ∈ COMPACT_DIRECT_RESUME_INSTRUCTION.toList, c ≠ '\n' :=
  forall_mem_of_all (all_toList_append (all_toList_append (all_toList_ofList (by decide))
    (all_toList_ofList (by decide))) (all_toList_ofList (by decide)))

theorem isMarker_resume : IsMarker resumeMarker :=
  ⟨['\n'], COMPACT_DIRECT_RESUME_INSTRUCTION.toList, by simp [resumeMarker], by decide,
    forall_mem_of_all (by decide), resume_words⟩

theorem marker_ne_nil {pattern : List Char} (h : IsMarker pattern) : pattern ≠ [] := by
  obtain ⟨breaks, words, rfl, hne, -⟩ := h
  exact append_ne_nil_of_left_ne_nil hne words

/-- What is added to the summary. -/
def continuationTail (suppress preserved : Bool) : List Char :=
  (if preserved then noteMarker else []) ++ (if suppress then resumeMarker else [])

/-- A text that does not end in a line break. -/
def EndsInLine (text : List Char) : Prop := ∀ c ∈ text.getLast?, c ≠ '\n'

/-- A text that begins with a line break, or is empty. -/
def StartsAfterLine (text : List Char) : Prop := ∀ c ∈ text.head?, c = '\n'

section Markers

variable {pattern text tail : List Char}

theorem infix_of_early (hpattern : IsMarker pattern) (htext : EndsInLine text)
    (htail : StartsAfterLine tail) (h : text ++ tail = before ++ pattern ++ after)
    (hearly : before.length < text.length) :
    pattern <:+: text := by
  obtain ⟨breaks, words, rfl, hne, hbreaks, hwords⟩ := hpattern
  rw [append_assoc before, append_eq_append_iff] at h
  rcases h with ⟨x, rfl, -⟩ | ⟨x, rfl, hx⟩
  · simp at hearly
  · rw [append_eq_append_iff] at hx
    rcases hx with ⟨y, rfl, -⟩ | ⟨y, hy, rfl⟩
    · exact ⟨before, y, by simp⟩
    · cases y with
      | nil =>
        rw [append_nil] at hy
        exact ⟨before, [], by simp [hy]⟩
      | cons c y =>
        -- The marker goes on behind the text, with a line break.
        have hc : c = '\n' := htail c (by simp)
        have hx : x ≠ [] := by
          rintro rfl
          simp at hearly
        exfalso
        rw [append_eq_append_iff] at hy
        rcases hy with ⟨z, rfl, hz⟩ | ⟨z, hz, hy⟩
        · -- The text ends in the words, and the line break is one of them.
          refine hwords c ?_ hc
          rw [hz]
          simp
        · -- The text ends in the line breaks.
          obtain ⟨last, hlast⟩ : ∃ last, x.getLast? = some last :=
            Option.ne_none_iff_exists'.mp (mt getLast?_eq_none_iff.mp hx)
          have hmem : last ∈ breaks := by
            rw [hz]
            exact mem_append_left _ (mem_of_getLast? hlast)
          refine htext last ?_ (hbreaks last hmem)
          simp [getLast?_append, hlast]

theorem splitOnce_marker (hpattern : IsMarker pattern) (htext : EndsInLine text)
    (hnot : ¬pattern <:+: text) (rest : List Char) :
    splitOnce pattern (text ++ (pattern ++ rest)) = some (text, rest) := by
  have hstart : StartsAfterLine (pattern ++ rest) := by
    obtain ⟨breaks, words, rfl, hne, hbreaks, -⟩ := hpattern
    cases breaks with
    | nil => exact absurd rfl hne
    | cons c breaks => simpa [StartsAfterLine] using hbreaks c mem_cons_self
  have hwithin : pattern <:+: text ++ (pattern ++ rest) := ⟨text, rest, by simp⟩
  obtain ⟨⟨before, after⟩, hparts⟩ := splitOnce_of_infix hwithin
  have hsplit := splitOnce_eq hparts
  have hle : before.length ≤ text.length :=
    splitOnce_first hparts (append_assoc text pattern rest).symm
  have hge : text.length ≤ before.length := by
    by_contra hlt
    exact hnot (infix_of_early hpattern htext hstart hsplit (by omega))
  rw [append_assoc] at hsplit
  obtain ⟨rfl, hrest⟩ := append_inj hsplit (by omega)
  rw [hparts, append_cancel_left hrest]

theorem splitOnce_unmarked (hpattern : IsMarker pattern) (htext : EndsInLine text)
    (htail : StartsAfterLine tail) (hnot : ¬pattern <:+: text)
    (hother : ¬pattern <:+: tail) : splitOnce pattern (text ++ tail) = none := by
  rw [splitOnce_eq_none_iff]
  rintro ⟨before, after, heq⟩
  rcases Nat.lt_or_ge before.length text.length with hlt | hge
  · exact hnot (infix_of_early hpattern htext htail heq.symm hlt)
  · rw [append_assoc, append_eq_append_iff] at heq
    rcases heq with ⟨x, rfl, hx⟩ | ⟨x, rfl, hx⟩
    · have hnil : x = [] := by
        rw [length_append] at hge
        exact length_eq_zero_iff.mp (by omega)
      subst hnil
      exact hother ⟨[], after, by simpa using hx⟩
    · exact hother ⟨x, after, by rw [hx, append_assoc]⟩

theorem beforeFirst_lt {name : String} (hname : name.toList ≠ []) (h : name.toList <:+: text) :
    (beforeFirst name (text ++ tail)).length < text.length := by
  obtain ⟨before, after, rfl⟩ := h
  have hwithin : name.toList <:+: before ++ name.toList ++ after ++ tail :=
    ⟨before, after ++ tail, by simp⟩
  obtain ⟨parts, hparts⟩ := splitOnce_of_infix hwithin
  have hle : parts.1.length ≤ before.length :=
    splitOnce_first hparts (append_assoc (before ++ name.toList) after tail)
  have hpos : 0 < name.toList.length := length_pos_iff.mpr hname
  rw [beforeFirst, hparts, length_append, length_append]
  change parts.1.length < _
  omega

theorem beforeFirst_le (name : String) (text : List Char) :
    (beforeFirst name text).length ≤ text.length := by
  unfold beforeFirst
  split
  · rename_i before after hsplit
    rw [splitOnce_eq hsplit, length_append, length_append]
    omega
  · exact Nat.le_refl _

end Markers

theorem endsInLine_trim (cs : List Char) : EndsInLine (trim cs) := by
  rintro c hc rfl
  have hblank := getLast?_trim hc
  cases hblank

section Recognised

variable (summary : String) (suppress preserved : Bool)

def continuationMessage : ConversationMessage :=
  ⟨.system, [.text (getCompactContinuationMessage summary suppress preserved)], none⟩

/-- No sentence that ends the summary lies within it. -/
def MarkerFree : Prop :=
  ¬noteMarker <:+: (formatCompactSummary summary).toList ∧
    ¬resumeMarker <:+: (formatCompactSummary summary).toList

theorem toList_formatCompactSummary :
    ∃ formatted, (formatCompactSummary summary).toList = trim formatted :=
  ⟨_, String.toList_ofList⟩

theorem toList_continuation :
    (getCompactContinuationMessage summary suppress preserved).toList =
      COMPACT_CONTINUATION_PREAMBLE.toList ++
        ((formatCompactSummary summary).toList ++ continuationTail suppress preserved) := by
  cases suppress <;> cases preserved <;>
    simp [getCompactContinuationMessage, continuationTail, noteMarker, resumeMarker]

theorem firstTextBlock_continuation :
    firstTextBlock (continuationMessage summary suppress preserved) =
      some (getCompactContinuationMessage summary suppress preserved) := by
  have hnonblank : trim (getCompactContinuationMessage summary suppress preserved).toList ≠ [] := by
    obtain ⟨rest, hpreamble⟩ : ∃ rest, COMPACT_CONTINUATION_PREAMBLE.toList = 'T' :: rest :=
      ⟨_, toList_ofList_append⟩
    rw [toList_continuation, hpreamble, cons_append, trim_of_head (by simp [isWhitespace])]
    intro hnil
    rw [trimEnd, reverse_eq_nil_iff, dropWhile_eq_nil_iff] at hnil
    have hfirst := hnil 'T' (by simp)
    cases hfirst
  simp [firstTextBlock, continuationMessage, hnonblank]

theorem extractExisting_continuation :
    extractExistingCompactedSummary (continuationMessage summary suppress preserved) =
      some (String.ofList (trim (beforeFirst ("\n" ++ COMPACT_DIRECT_RESUME_INSTRUCTION)
        (beforeFirst ("\n\n" ++ COMPACT_RECENT_MESSAGES_NOTE)
          ((formatCompactSummary summary).toList ++ continuationTail suppress preserved))))) := by
  have hrole : ¬(continuationMessage summary suppress preserved).role ≠ .system := by
    simp [continuationMessage]
  have hpre (rest : List Char) :
      stripPrefix COMPACT_CONTINUATION_PREAMBLE.toList
        (COMPACT_CONTINUATION_PREAMBLE.toList ++ rest) = some rest := by
    have hstart := isPrefixOf_iff_prefix.mpr
      (prefix_append COMPACT_CONTINUATION_PREAMBLE.toList rest)
    rw [stripPrefix, if_pos hstart, drop_left]
  rw [extractExistingCompactedSummary, if_neg hrole, firstTextBlock_continuation]
  change (stripPrefix _ _).map _ = _
  rw [toList_continuation, hpre]
  rfl

theorem beforeFirst_of_some {name : String} {cs : List Char}
    (h : splitOnce name.toList cs = some (before, after)) : beforeFirst name cs = before := by
  rw [beforeFirst, h]

theorem beforeFirst_of_none {name : String} {cs : List Char}
    (h : splitOnce name.toList cs = none) : beforeFirst name cs = cs := by
  rw [beforeFirst, h]

theorem not_infix_of_words {words others : List Char} (h : ∀ c ∈ others, c ≠ '\n') :
    ¬ '\n' :: '\n' :: words <:+: '\n' :: others := by
  rintro ⟨before, after, heq⟩
  have hmem : '\n' ∈ others := by
    cases before with
    | nil =>
      rw [← (List.cons.inj heq).2]
      exact mem_cons_self
    | cons c before =>
      rw [← (List.cons.inj heq).2]
      simp
  exact h '\n' hmem rfl

theorem resume_not_note : ¬noteMarker <:+: resumeMarker := by
  have hnote : noteMarker = '\n' :: '\n' :: COMPACT_RECENT_MESSAGES_NOTE.toList := by
    simp [noteMarker]
  have hresume : resumeMarker = '\n' :: COMPACT_DIRECT_RESUME_INSTRUCTION.toList := by
    simp [resumeMarker]
  rw [hnote, hresume]
  exact not_infix_of_words resume_words

theorem marker_not_nil {pattern : List Char} (h : IsMarker pattern) : ¬pattern <:+: [] :=
  fun hwithin => marker_ne_nil h (infix_nil.mp hwithin)

theorem endsInLine_format : EndsInLine (formatCompactSummary summary).toList := by
  obtain ⟨formatted, hformatted⟩ := toList_formatCompactSummary summary
  rw [hformatted]
  exact endsInLine_trim formatted

theorem continuationTail_false : continuationTail suppress false = [] ∨
    continuationTail suppress false = resumeMarker := by
  unfold continuationTail
  rw [if_neg Bool.false_ne_true, nil_append]
  split
  · exact .inr rfl
  · exact .inl rfl

theorem beforeFirst_note (h : ¬noteMarker <:+: (formatCompactSummary summary).toList) :
    beforeFirst ("\n\n" ++ COMPACT_RECENT_MESSAGES_NOTE)
      ((formatCompactSummary summary).toList ++ continuationTail suppress preserved) =
        (formatCompactSummary summary).toList ++
          (if preserved then [] else continuationTail suppress false) := by
  have hline := endsInLine_format summary
  cases preserved with
  | true =>
    have hsplit := splitOnce_marker isMarker_note hline h (continuationTail suppress false)
    rw [if_pos rfl, append_nil]
    exact beforeFirst_of_some hsplit
  | false =>
    refine beforeFirst_of_none (splitOnce_unmarked isMarker_note hline ?_ h ?_)
    · rcases continuationTail_false suppress with htail | htail
      · simp [htail, StartsAfterLine]
      · simp [htail, StartsAfterLine, resumeMarker]
    · rcases continuationTail_false suppress with htail | htail
      · rw [htail]
        exact marker_not_nil isMarker_note
      · rw [htail]
        exact resume_not_note

theorem extractExisting_of_markerFree (h : MarkerFree summary) :
    extractExistingCompactedSummary (continuationMessage summary suppress preserved) =
      some (formatCompactSummary summary) := by
  obtain ⟨formatted, hformatted⟩ := toList_formatCompactSummary summary
  have hplain : beforeFirst ("\n" ++ COMPACT_DIRECT_RESUME_INSTRUCTION)
      (formatCompactSummary summary).toList = (formatCompactSummary summary).toList :=
    beforeFirst_of_none (splitOnce_eq_none_iff.mpr h.2)
  have hresume : beforeFirst ("\n" ++ COMPACT_DIRECT_RESUME_INSTRUCTION)
      ((formatCompactSummary summary).toList ++
        (if preserved then [] else continuationTail suppress false)) =
          (formatCompactSummary summary).toList := by
    cases preserved with
    | true => simpa using hplain
    | false =>
      rcases continuationTail_false suppress with htail | htail
      · simpa [htail] using hplain
      · have hsplit := splitOnce_marker isMarker_resume (endsInLine_format summary) h.2 []
        rw [append_nil] at hsplit
        simpa [htail] using beforeFirst_of_some hsplit
  rw [extractExisting_continuation, beforeFirst_note summary suppress preserved h.1, hresume,
    hformatted, trim_trim, ← hformatted, String.ofList_toList]

theorem beforeFirst_lt_of_marker (h : ¬MarkerFree summary) :
    (beforeFirst ("\n" ++ COMPACT_DIRECT_RESUME_INSTRUCTION)
      (beforeFirst ("\n\n" ++ COMPACT_RECENT_MESSAGES_NOTE)
        ((formatCompactSummary summary).toList ++ continuationTail suppress preserved))).length <
      (formatCompactSummary summary).toList.length := by
  by_cases hnote : noteMarker <:+: (formatCompactSummary summary).toList
  · have hcut : (beforeFirst ("\n\n" ++ COMPACT_RECENT_MESSAGES_NOTE)
        ((formatCompactSummary summary).toList ++ continuationTail suppress preserved)).length <
          (formatCompactSummary summary).toList.length :=
      beforeFirst_lt (marker_ne_nil isMarker_note) hnote
    exact (beforeFirst_le _ _).trans_lt hcut
  · have hresume : resumeMarker <:+: (formatCompactSummary summary).toList := by
      by_contra hnot
      exact h ⟨hnote, hnot⟩
    rw [beforeFirst_note summary suppress preserved hnote]
    exact beforeFirst_lt (marker_ne_nil isMarker_resume) hresume

theorem markerFree_of_extractExisting
    (h : extractExistingCompactedSummary (continuationMessage summary suppress preserved) =
      some (formatCompactSummary summary)) : MarkerFree summary := by
  by_contra hmarker
  rw [extractExisting_continuation, Option.some.injEq] at h
  have hlen := congrArg (fun text : String => text.toList.length) h
  simp only [String.toList_ofList] at hlen
  have hcut := beforeFirst_lt_of_marker summary suppress preserved hmarker
  have hless := (infix_trim _).length_le.trans_lt hcut
  omega

/-- The recogniser gives back the summary exactly if no sentence that ends it lies
within it. -/
theorem continuation_recognised_iff :
    extractExistingCompactedSummary (continuationMessage summary suppress preserved) =
      some (formatCompactSummary summary) ↔ MarkerFree summary :=
  ⟨markerFree_of_extractExisting summary suppress preserved,
    extractExisting_of_markerFree summary suppress preserved⟩

/-- A summary that quotes the sentence about preserved messages is cut there. -/
theorem quoted_note_cuts :
    extractExistingCompactedSummary
      (continuationMessage "a\n\nRecent messages are preserved verbatim." true true) ≠
        some (formatCompactSummary "a\n\nRecent messages are preserved verbatim.") := by
  intro h
  have hquoted : noteMarker <:+:
      (formatCompactSummary "a\n\nRecent messages are preserved verbatim.").toList := by
    decide +kernel
  exact (markerFree_of_extractExisting _ true true h).1 hquoted

end Recognised

end DbClinic.Runtime
