import DbClinic.Runtime.Occurrence
import DbClinic.Server.SkillEngine

/-!
A user's text from the kernel to the history of a session. The kernel puts the skill
context before the text; the gateway takes it off when the history is read. The end of
the context is found by its last line, which a skill may quote and a user may type.
-/

namespace DbClinic.Gateway

open DbClinic.Runtime DbClinic.Server List
open SkillEngine

def separator : List Char := "\n\n---\n\n".toList

def skillContext (engine : SkillEngine) (matched : List MatchedSkill) : Option (List Char) :=
  if matched = [] then none else some (engine.buildContext matched)

def augmented (engine : SkillEngine) (matched : List MatchedSkill) (userText : List Char) :
    List Char :=
  match skillContext engine matched with
  | some context => context ++ separator ++ userText
  | none => userText

/-- What `session_history` does to the content of a user message. -/
def stripContext (content : List Char) : List Char :=
  if contextHeader.isPrefixOf content then
    match splitOnce contextEnd content with
    | some (_, rest) => rest.drop separator.length
    | none => content
  else content

/-- The content that `session_history` returns for a message with these texts; a message
without content is left out. -/
def historyEntry (role : String) (texts : List (List Char)) : Option (List Char) :=
  let content := ['\n'].intercalate texts
  if content = [] then none
  else some (if role = "user" then stripContext content else content)

theorem contextEnd_line : '\n' ∉ contextEnd := by decide

theorem contextEnd_ne_nil : contextEnd ≠ [] := by decide

theorem contextEnd_head : contextEnd.head? = some '[' := by decide

theorem contextHeader_unmarked : ¬ contextEnd <:+: contextHeader := by
  rw [← splitOnce_eq_none_iff]
  decide

/-- None of the texts of a skill that are shown contains the last line of a context. -/
structure Unmarked (skill : LoadedSkill) : Prop where
  name : ¬ contextEnd <:+: skill.name
  category : skill.skillType = .case → ¬ contextEnd <:+: skill.category
  description : ¬ contextEnd <:+: skill.description
  content : ¬ contextEnd <:+: skill.content

theorem infix_label_iff (label text : List Char) (h : '[' ∉ label) :
    contextEnd <:+: label ++ text ↔ contextEnd <:+: text := by
  constructor
  · contrapose
    apply not_infix_behind contextEnd_ne_nil
    intro c hc
    obtain rfl := Option.some.inj (contextEnd_head.symm.trans hc)
    exact h
  · intro hwithin
    exact hwithin.trans (suffix_append label text).isInfix

theorem infix_starred_iff (text : List Char) :
    contextEnd <:+: '*' :: text ++ ['*'] ↔ contextEnd <:+: text := by
  constructor
  · contrapose
    intro h
    apply not_infix_concat (by decide) contextEnd_ne_nil
    have hstar := mt (infix_label_iff ['*'] text (by decide)).mp h
    simpa using hstar
  · intro hwithin
    exact hwithin.trans ⟨['*'], ['*'], by simp⟩

theorem not_infix_nil : ¬ contextEnd <:+: [] := by
  simp [contextEnd_ne_nil]

theorem unmarked_description_iff {shown description : List Char}
    (h : contextEnd <:+: shown ↔ contextEnd <:+: description) :
    (∀ line ∈ (if description ≠ [] then [shown] else []), ¬ contextEnd <:+: line) ↔
      ¬ contextEnd <:+: description := by
  split
  · simp [h]
  · rename_i hnone
    simp only [ne_eq, not_not] at hnone
    simp [hnone, contextEnd_ne_nil]

theorem unmarked_iff (skill : LoadedSkill) :
    Unmarked skill ↔ ∀ line ∈ SkillEngine.skillLines skill, ¬ contextEnd <:+: line := by
  cases htype : skill.skillType with
  | case =>
    have hname := infix_label_iff "## Skill: ".toList skill.name (by decide)
    have hcategory := infix_label_iff "Category: ".toList skill.category (by decide)
    have hdescription := unmarked_description_iff
      (infix_label_iff "Description: ".toList skill.description (by decide))
    simp only [SkillEngine.skillLines, htype, forall_mem_append, forall_mem_cons, hname,
      hcategory, hdescription]
    constructor
    · rintro ⟨h1, h2, h3, h4⟩
      simp [h1, h2 htype, h3, h4, contextEnd_ne_nil]
    · rintro ⟨⟨⟨h1, h2, -⟩, h3⟩, -, h4, -⟩
      exact ⟨h1, fun _ => h2, h3, h4⟩
  | knowledge =>
    have hname := infix_label_iff "### Knowledge: ".toList skill.name (by decide)
    have hdescription := unmarked_description_iff (infix_starred_iff skill.description)
    simp only [SkillEngine.skillLines, htype, forall_mem_append, forall_mem_cons, hname,
      hdescription]
    constructor
    · rintro ⟨h1, -, h3, h4⟩
      simp [h1, h3, h4, contextEnd_ne_nil]
    · rintro ⟨⟨⟨h1, -⟩, h3⟩, -, h4, -⟩
      refine ⟨h1, fun hcase => ?_, h3, h4⟩
      rw [htype] at hcase
      cases hcase

def frontLines (engine : SkillEngine) (matched : List MatchedSkill) : List (List Char) :=
  [contextHeader, []] ++
    matched.flatMap fun m => ((engine.skillMap m.id).map SkillEngine.skillLines).getD []

theorem intercalate_snoc (s : Char) (parts : List (List Char)) (last : List Char)
    (hne : parts ≠ []) :
    [s].intercalate (parts ++ [last]) = [s].intercalate parts ++ s :: last := by
  induction parts with
  | nil => exact absurd rfl hne
  | cons part rest ih =>
    cases rest with
    | nil => simp [intercalate_cons_cons]
    | cons next rest =>
      have hrest := ih (by simp)
      simp only [cons_append, intercalate_cons_cons] at hrest ⊢
      simp [hrest]

variable {engine : SkillEngine} {matched : List MatchedSkill} {front text : List Char}

theorem buildContext_eq (hne : matched ≠ []) :
    engine.buildContext matched =
      ['\n'].intercalate (frontLines engine matched) ++ '\n' :: contextEnd := by
  rw [← intercalate_snoc _ _ _ (by simp [frontLines])]
  simp [SkillEngine.buildContext, hne, frontLines]

theorem front_unmarked_iff (engine : SkillEngine) (matched : List MatchedSkill) :
    ¬ contextEnd <:+: ['\n'].intercalate (frontLines engine matched) ↔
      ∀ m ∈ matched, ∀ skill, engine.skillMap m.id = some skill → Unmarked skill := by
  rw [infix_intercalate_iff contextEnd_line contextEnd_ne_nil]
  simp only [unmarked_iff, frontLines]
  constructor
  · intro h m hm skill hskill line hline hwithin
    apply h
    refine ⟨line, ?_, hwithin⟩
    rw [mem_append, mem_flatMap]
    exact .inr ⟨m, hm, by simp [hskill, hline]⟩
  · rintro h ⟨line, hline, hwithin⟩
    rcases mem_append.mp hline with hhead | hbody
    · simp only [mem_cons, not_mem_nil, or_false] at hhead
      rcases hhead with rfl | rfl
      · exact contextHeader_unmarked hwithin
      · exact not_infix_nil hwithin
    · obtain ⟨m, hm, hmem⟩ := mem_flatMap.mp hbody
      cases hskill : engine.skillMap m.id with
      | none => simp [hskill] at hmem
      | some skill =>
        rw [hskill] at hmem
        exact h m hm skill hskill line hmem hwithin

theorem header_leads (engine : SkillEngine) (matched : List MatchedSkill) (rest : List Char) :
    contextHeader.isPrefixOf
      (['\n'].intercalate (frontLines engine matched) ++ rest) = true := by
  rw [List.isPrefixOf_iff_prefix]
  simp [frontLines, intercalate_cons_cons]

theorem stripContext_unmarked (hheader : ∀ rest, contextHeader.isPrefixOf (front ++ rest) = true)
    (h : ¬ contextEnd <:+: front) :
    stripContext (front ++ '\n' :: (contextEnd ++ (separator ++ text))) = text := by
  have hsplit := splitOnce_separated contextEnd_line contextEnd_ne_nil h
    (contextEnd ++ (separator ++ text))
  rw [splitOnce_start contextEnd_ne_nil] at hsplit
  simp [stripContext, hheader, hsplit]

theorem stripContext_marked (hheader : ∀ rest, contextHeader.isPrefixOf (front ++ rest) = true)
    (h : contextEnd <:+: front) :
    stripContext (front ++ '\n' :: (contextEnd ++ (separator ++ text))) ≠ text := by
  obtain ⟨other, rest, rfl⟩ := h
  intro hsame
  have hwithin : contextEnd <:+:
      other ++ contextEnd ++ rest ++ '\n' :: (contextEnd ++ (separator ++ text)) :=
    ⟨other, rest ++ '\n' :: (contextEnd ++ (separator ++ text)), by simp⟩
  obtain ⟨⟨before, after⟩, hsplit⟩ := splitOnce_of_infix hwithin
  have hjoined : other ++ contextEnd ++ rest ++ '\n' :: (contextEnd ++ (separator ++ text)) =
      other ++ contextEnd ++ (rest ++ '\n' :: (contextEnd ++ (separator ++ text))) := by simp
  have hfirst := splitOnce_first hsplit hjoined
  have hparts := congrArg List.length (splitOnce_eq hsplit)
  simp only [stripContext, hheader, if_true, hsplit] at hsame
  have hlen := congrArg List.length hsame
  simp only [length_append, length_cons, length_drop] at hparts hlen
  omega

theorem stripContext_typed_iff (text : List Char) :
    stripContext text = text ↔ ¬ (contextHeader <+: text ∧ contextEnd <:+: text) := by
  unfold stripContext
  split
  · rename_i hheader
    rw [List.isPrefixOf_iff_prefix] at hheader
    cases hsplit : splitOnce contextEnd text with
    | none => simp [splitOnce_eq_none_iff.mp hsplit]
    | some parts =>
      have hwithin : contextEnd <:+: text := ⟨parts.1, parts.2, (splitOnce_eq hsplit).symm⟩
      have hshorter := congrArg List.length (splitOnce_eq hsplit)
      have hend : 0 < contextEnd.length := length_pos_iff.mpr contextEnd_ne_nil
      simp only [length_append] at hshorter
      simp only [hheader, hwithin, and_self, not_true_eq_false, iff_false]
      intro hsame
      have hlen := congrArg List.length hsame
      simp only [length_drop] at hlen
      omega
  · rename_i hheader
    rw [List.isPrefixOf_iff_prefix] at hheader
    simp [hheader]

def Returned (engine : SkillEngine) (matched : List MatchedSkill) (text : List Char) : Prop :=
  historyEntry "user" [augmented engine matched text] = some text

/-- Behind a context, no shown skill contains the last line of a context; without one,
there is a text, and it does not look like one with a context. -/
def Recoverable (engine : SkillEngine) (matched : List MatchedSkill) (text : List Char) : Prop :=
  (matched ≠ [] →
    ∀ m ∈ matched, ∀ skill, engine.skillMap m.id = some skill → Unmarked skill) ∧
  (matched = [] → text ≠ [] ∧ ¬ (contextHeader <+: text ∧ contextEnd <:+: text))

theorem returned_behind_context_iff (text : List Char) (hne : matched ≠ []) :
    Returned engine matched text ↔
      ∀ m ∈ matched, ∀ skill, engine.skillMap m.id = some skill → Unmarked skill := by
  have hstored : augmented engine matched text =
      ['\n'].intercalate (frontLines engine matched) ++
        '\n' :: (contextEnd ++ (separator ++ text)) := by
    simp [augmented, skillContext, hne, buildContext_eq hne]
  have hentry : historyEntry "user" [augmented engine matched text] =
      some (stripContext (augmented engine matched text)) := by
    simp [historyEntry, hstored]
  rw [Returned, hentry, hstored, Option.some_inj, ← front_unmarked_iff]
  constructor
  · intro hsame hmarked
    exact stripContext_marked (header_leads engine matched) hmarked hsame
  · exact stripContext_unmarked (header_leads engine matched)

theorem returned_typed_iff (engine : SkillEngine) (text : List Char) :
    Returned engine [] text ↔
      text ≠ [] ∧ ¬ (contextHeader <+: text ∧ contextEnd <:+: text) := by
  by_cases hnone : text = []
  · simp [Returned, historyEntry, augmented, skillContext, hnone]
  · simp [Returned, historyEntry, augmented, skillContext, hnone, stripContext_typed_iff]

/-- The history gives back a user's text exactly if nothing before it, and not the text
alone, can be taken for the end of a context. -/
theorem history_returns_text_iff (engine : SkillEngine) (matched : List MatchedSkill)
    (text : List Char) : Returned engine matched text ↔ Recoverable engine matched text := by
  by_cases hnone : matched = []
  · simp [hnone, Recoverable, returned_typed_iff]
  · simp [hnone, Recoverable, returned_behind_context_iff text hnone]

def quotingSkill : LoadedSkill where
  id := "contexts"
  name := "contexts".toList
  category := []
  description := []
  keywords := []
  symptoms := []
  triggers := []
  tags := []
  content := "ends with [End of Matched Skills]".toList
  skillType := .knowledge

/-- A text that looks like a context loses its beginning, and behind a skill that quotes
the last line the rest of the skill stays before the text. -/
theorem marker_in_text_is_cut :
    (historyEntry "user" [augmented ⟨[]⟩ []
          "[Matched Diagnostic Skills] and [End of Matched Skills] are shown".toList] =
        some "own".toList ∧
      ¬ Returned ⟨[]⟩ []
          "[Matched Diagnostic Skills] and [End of Matched Skills] are shown".toList) ∧
      historyEntry "user" [augmented ⟨[quotingSkill]⟩
          (SkillEngine.selectByIds ⟨[quotingSkill]⟩ ["contexts"]) "why?".toList] =
        some "of Matched Skills]\n\n---\n\nwhy?".toList ∧
      ¬ Returned ⟨[quotingSkill]⟩ (SkillEngine.selectByIds ⟨[quotingSkill]⟩ ["contexts"])
          "why?".toList := by
  refine ⟨⟨by decide, ?_⟩, by decide, ?_⟩
  · unfold Returned
    decide
  · unfold Returned
    decide

end DbClinic.Gateway
