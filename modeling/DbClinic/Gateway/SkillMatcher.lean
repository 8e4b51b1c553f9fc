import DbClinic.Server.SkillEngine

/-!
The skill matcher in Python, beside the engine in Rust. The two score a skill the same
way but for the words of its symptoms: the engine cuts at blanks and counts bytes, the
matcher looks for runs of word characters and counts characters.
-/

namespace DbClinic.Gateway

open DbClinic.Runtime DbClinic.Server List

/-- What Python knows of texts: `\w` beside the functions that both languages have. -/
structure PyText extends TextSearch where
  isWord : Char → Bool
  blank_not_word : ∀ c, isWhitespace c = true → isWord c = false

structure PyMatchedSkill where
  skillId : String
  skillName : List Char
  category : List Char
  score : Nat
  skillType : SkillType
  deriving DecidableEq

def PyMatchedSkill.ofMatched (m : MatchedSkill) : PyMatchedSkill where
  skillId := m.id
  skillName := m.name
  category := m.category
  score := m.score
  skillType := m.skillType

/-- The metadata of a skill in the database; a key may be absent. -/
structure SkillMetadataDict where
  category : Option (List Char)
  keywords : Option (List (List Char))
  symptoms : Option (List (List Char))
  triggers : Option (List (List Char))

def SkillMetadataDict.ofSkill (skill : SkillMetadata) : SkillMetadataDict where
  category := some skill.category
  keywords := some skill.keywords
  symptoms := some skill.symptoms
  triggers := some skill.triggers

structure SimpleSkillMatcher where
  caseRegistry : List SkillMetadata
  knowledgeRegistry : List SkillMetadata

namespace SimpleSkillMatcher

def categoryHints : List (String × List String) :=
  [("slow_sql", ["slow", "慢查询", "slow query", "timeout", "duration", "执行计划", "explain",
      "seq scan", "full table scan", "performance", "速度"]),
    ("lock", ["lock", "deadlock", "死锁", "锁", "blocking", "blocked", "waiting",
      "idle in transaction", "lock wait"]),
    ("index", ["index", "索引", "create index", "missing index", "seq scan", "no index"]),
    ("wait_events", ["wait event", "lwlock", "io wait", "等待", "clientread", "wait_event"]),
    ("vacuum", ["vacuum", "autovacuum", "bloat", "dead tuple", "dead rows", "膨胀"])]

section Scores

variable (py : PyText)

/-- `_normalize`. -/
def normalize (text : List Char) : List Char :=
  replaceText ['-'] [' '] (replaceText ['_'] [' '] (py.lowercase text))

/-- `re.findall` with the pattern `\w{3,}`: the longest runs of word characters, but for
those that are too short. -/
def findWords (text : List Char) : List (List Char) :=
  (text.splitOnP fun c => !py.isWord c).filter fun run => 3 ≤ run.length

def hinted (category context : List Char) : Bool :=
  let hints := ((categoryHints.find? fun hint => hint.1.toList = category).map Prod.snd).getD []
  hints.any fun hint => containsText hint.toList context

/-- `_score_case_skill` and `score_skill_from_metadata`, which read the same keys of an
object and of a dict. -/
def scoreCaseFields (category : List Char) (keywords symptoms triggers : List (List Char))
    (context : List Char) : Nat :=
  let score := addEach 4 (fun kw => containsText (normalize py kw) context) keywords 0
  let score := addEach 3 (fun symptom => 2 ≤ hits context (findWords py (normalize py symptom)))
    symptoms score
  let score := addEach 6 (fun trigger => py.found trigger context) triggers score
  if hinted category context then score + 2 else score

def scoreCaseSkill (skill : SkillMetadata) (context : List Char) : Nat :=
  scoreCaseFields py skill.category skill.keywords skill.symptoms skill.triggers context

def scoreSkillFromMetadata (metadata : SkillMetadataDict) (context : List Char) : Nat :=
  scoreCaseFields py (metadata.category.getD []) (metadata.keywords.getD [])
    (metadata.symptoms.getD []) (metadata.triggers.getD []) context

def scoreKnowledgeSkill (skill : SkillMetadata) (context : List Char) : Nat :=
  let score := addEach 4 (fun kw => containsText (normalize py kw) context) skill.keywords 0
  addEach 1 (fun tag => containsText (normalize py tag) context) skill.tags score

def matchSkills (matcher : SimpleSkillMatcher) (userMessage : List Char) (topK : Nat) :
    List PyMatchedSkill :=
  let context := normalize py userMessage
  let record (skillType : SkillType) (score : SkillMetadata → Nat) (skill : SkillMetadata) :
      Option PyMatchedSkill :=
    if 0 < score skill then
      some { skillId := skill.id, skillName := skill.name, category := skill.category
             score := score skill, skillType }
    else none
  let results :=
    matcher.caseRegistry.filterMap (record .case fun skill => scoreCaseSkill py skill context) ++
      matcher.knowledgeRegistry.filterMap
        (record .knowledge fun skill => scoreKnowledgeSkill py skill context)
  (results.mergeSort fun a b => decide (b.score ≤ a.score)).take topK

end Scores

end SimpleSkillMatcher

open SimpleSkillMatcher

theorem replaceText_char (old new : Char) (text : List Char) :
    replaceText [old] [new] text = text.map fun c => if c = old then new else c := by
  unfold replaceText
  induction text with
  | nil => rfl
  | cons c text ih =>
    by_cases hc : c = old
    · subst hc
      simp [replaceFrom, ih]
    · simp [replaceFrom, hc, Ne.symm hc, ih]

theorem normalize_eq (py : PyText) (text : List Char) :
    SimpleSkillMatcher.normalize py text = Server.normalize py.toTextSearch text := by
  simp only [SimpleSkillMatcher.normalize, Server.normalize, replaceText_char, map_map]
  apply map_congr_left
  intro c _
  by_cases hunderscore : c = '_'
  · simp [hunderscore]
  · simp [hunderscore]

theorem hinted_eq (category context : List Char) :
    SimpleSkillMatcher.hinted category context = Server.hinted category context := by
  have hsame : Server.categoryHints = SimpleSkillMatcher.categoryHints := rfl
  rw [SimpleSkillMatcher.hinted, Server.hinted, hsame]
  cases SimpleSkillMatcher.categoryHints.find? fun hint => hint.1.toList = category with
  | none => rfl
  | some hint => rfl

theorem scoreKnowledge_eq (py : PyText) (skill : SkillMetadata) (context : List Char) :
    scoreKnowledgeSkill py skill context = scoreKnowledge py.toTextSearch skill context := by
  simp only [scoreKnowledgeSkill, scoreKnowledge, normalize_eq]

theorem addEach_eq {α : Type} (weight : Nat) (counts : α → Bool) (items : List α) (score : Nat) :
    addEach weight counts items score = score + weight * items.countP counts := by
  unfold addEach
  induction items generalizing score with
  | nil => simp
  | cons item items ih =>
    rw [foldl_cons, ih, countP_cons]
    split
    · rw [Nat.mul_add]
      omega
    · simp

theorem scores_agree_iff_symptoms (py : PyText) (skill : SkillMetadata) (context : List Char) :
    scoreCaseSkill py skill context = scoreCase py.toTextSearch skill context ↔
      (skill.symptoms.countP fun symptom =>
          2 ≤ hits context (symptomWords py.toTextSearch symptom)) =
        skill.symptoms.countP fun symptom =>
          2 ≤ hits context (findWords py (Server.normalize py.toTextSearch symptom)) := by
  simp only [scoreCaseSkill, scoreCaseFields, scoreCase, normalize_eq, hinted_eq, addEach_eq]
  split
  · omega
  · omega

section Words

variable (py : PyText)

def tokens (symptom : List Char) : List (List Char) :=
  splitWhitespace (Server.normalize py.toTextSearch symptom)

def isWholeWord (token : List Char) : Bool := token.all py.isWord && 3 ≤ token.length

def wholeWords (symptom : List Char) : List (List Char) :=
  (tokens py symptom).filter (isWholeWord py)

/-- The tokens that only the engine counts: long enough in bytes, and not a word of three
characters. -/
def otherTokens (symptom : List Char) : List (List Char) :=
  (tokens py symptom).filter fun token => 3 ≤ utf8Length token && !isWholeWord py token

/-- The words that only the matcher counts: those within a token that is more than a
word. -/
def innerWords (symptom : List Char) : List (List Char) :=
  ((tokens py symptom).filter fun token => !isWholeWord py token).flatMap (findWords py)

theorem length_le_utf8Length (cs : List Char) : cs.length ≤ utf8Length cs := by
  unfold utf8Length
  induction cs with
  | nil => simp
  | cons c cs ih =>
    have hc := c.utf8Size_pos
    simp only [map_cons, sum_cons, length_cons]
    omega

theorem utf8Length_of_isWholeWord {token : List Char} (h : isWholeWord py token = true) :
    3 ≤ utf8Length token := by
  have hlen := length_le_utf8Length token
  simp only [isWholeWord, Bool.and_eq_true, decide_eq_true_eq] at h
  omega

theorem hits_symptomWords (context symptom : List Char) :
    hits context (symptomWords py.toTextSearch symptom) =
      hits context (wholeWords py symptom) + hits context (otherTokens py symptom) := by
  have hsplit := countP_eq_countP_filter_add (symptomWords py.toTextSearch symptom)
    (fun word => containsText word context) (isWholeWord py)
  have hwhole : (symptomWords py.toTextSearch symptom).filter (isWholeWord py) =
      wholeWords py symptom := by
    simp only [symptomWords, wholeWords, tokens, filter_filter]
    apply filter_congr
    intro token _
    have hlong := @utf8Length_of_isWholeWord py token
    cases hword : isWholeWord py token with
    | false => rfl
    | true => simpa using hlong hword
  have hother : (symptomWords py.toTextSearch symptom).filter (fun word => !isWholeWord py word) =
      otherTokens py symptom := by
    simp [symptomWords, otherTokens, tokens, filter_filter, Bool.and_comm]
  rw [hwhole] at hsplit
  simp only [hits, ← hother]
  simpa using hsplit

theorem findWords_nil : findWords py [] = [] := by
  simp [findWords]

theorem findWords_append {blank : Char} (before after : List Char)
    (hblank : isWhitespace blank = true) :
    findWords py (before ++ blank :: after) = findWords py before ++ findWords py after := by
  unfold findWords
  rw [splitOnP_append_cons, filter_append]
  simp [py.blank_not_word blank hblank]

theorem findWords_single (word : List Char) (h : ∀ c ∈ word, isWhitespace c = false) :
    (splitWhitespace word).flatMap (findWords py) = findWords py word := by
  by_cases hne : word = []
  · subst hne
    simp [findWords_nil, splitWhitespace]
  · simp [splitWhitespace_word hne h]

theorem findWords_tokens (word text : List Char) (h : ∀ c ∈ word, isWhitespace c = false) :
    findWords py (word ++ text) = (splitWhitespace (word ++ text)).flatMap (findWords py) := by
  induction text generalizing word with
  | nil => simp [findWords_single py word h]
  | cons c text ih =>
    cases hc : isWhitespace c with
    | true =>
      have hrest := ih [] (by simp)
      simp only [nil_append] at hrest
      rw [findWords_append py word text hc, splitWhitespace_append word hc,
        flatMap_append, findWords_single py word h, hrest]
    | false =>
      have hword : ∀ d ∈ word ++ [c], isWhitespace d = false := by
        intro d hd
        rcases mem_append.mp hd with hd | hd
        · exact h d hd
        · simpa [mem_singleton.mp hd] using hc
      simpa using ih (word ++ [c]) hword

theorem findWords_of_isWholeWord {token : List Char} (h : isWholeWord py token = true) :
    findWords py token = [token] := by
  simp only [isWholeWord, Bool.and_eq_true, decide_eq_true_eq, all_eq_true] at h
  have hone : (token.splitOnP fun c => !py.isWord c) = [token] := by
    apply splitOnP_eq_singleton
    intro c hc
    simp [h.1 c hc]
  simp [findWords, hone, h.2]

theorem hits_flatMap (context : List Char) (p : List Char → Bool)
    (f : List Char → List (List Char)) (items : List (List Char)) :
    hits context (items.flatMap f) =
      hits context ((items.filter p).flatMap f) +
        hits context ((items.filter fun item => !p item).flatMap f) := by
  unfold hits
  induction items with
  | nil => simp
  | cons item items ih =>
    cases hp : p item with
    | true =>
      simp only [flatMap_cons, countP_append, filter_cons, hp, ih]
      simp
      omega
    | false =>
      simp only [flatMap_cons, countP_append, filter_cons, hp, ih]
      simp
      omega

theorem hits_findWords (context symptom : List Char) :
    hits context (findWords py (Server.normalize py.toTextSearch symptom)) =
      hits context (wholeWords py symptom) + hits context (innerWords py symptom) := by
  have htokens := findWords_tokens py [] (Server.normalize py.toTextSearch symptom) (by simp)
  simp only [nil_append] at htokens
  have hwhole : (wholeWords py symptom).flatMap (findWords py) = wholeWords py symptom := by
    have hsame : (wholeWords py symptom).flatMap (findWords py) =
        (wholeWords py symptom).flatMap fun word => [word] := by
      apply flatMap_congr
      intro word hword
      exact findWords_of_isWholeWord py (mem_filter.mp hword).2
    simpa using hsame
  rw [htokens, hits_flatMap context (isWholeWord py)]
  unfold wholeWords at hwhole
  simp only [tokens] at hwhole
  rw [hwhole]
  rfl

def engineOnly (context symptom : List Char) : Bool :=
  2 ≤ hits context (wholeWords py symptom) + hits context (otherTokens py symptom) &&
    !decide (2 ≤ hits context (wholeWords py symptom) + hits context (innerWords py symptom))

def matcherOnly (context symptom : List Char) : Bool :=
  2 ≤ hits context (wholeWords py symptom) + hits context (innerWords py symptom) &&
    !decide (2 ≤ hits context (wholeWords py symptom) + hits context (otherTokens py symptom))

theorem countP_eq_iff {α : Type} (p q : α → Bool) (items : List α) :
    items.countP p = items.countP q ↔
      (items.countP fun a => p a && !q a) = items.countP fun a => q a && !p a := by
  have hsum : items.countP p + (items.countP fun a => q a && !p a) =
      items.countP q + items.countP fun a => p a && !q a := by
    induction items with
    | nil => rfl
    | cons item items ih =>
      simp only [countP_cons]
      cases p item <;> cases q item <;> simp <;> omega
  omega

end Words

/-- As many symptoms are found by the engine alone as by the matcher alone. -/
def Balanced (py : PyText) (context : List Char) (skill : SkillMetadata) : Prop :=
  skill.symptoms.countP (engineOnly py context) = skill.symptoms.countP (matcherOnly py context)

theorem scores_agree_iff_balanced (py : PyText) (skill : SkillMetadata) (context : List Char) :
    scoreCaseSkill py skill context = scoreCase py.toTextSearch skill context ↔
      Balanced py context skill := by
  rw [scores_agree_iff_symptoms, countP_eq_iff]
  simp only [hits_symptomWords, hits_findWords]
  rfl

/-- The engine and the matcher score each skill alike, and select and rank the same
skills. -/
structure Agree (py : PyText) (cases knowledge : List SkillMetadata) (message : List Char) :
    Prop where
  caseScores : ∀ skill ∈ cases,
    scoreCaseSkill py skill (SimpleSkillMatcher.normalize py message) =
      scoreCase py.toTextSearch skill (Server.normalize py.toTextSearch message)
  metadataScores : ∀ skill ∈ cases,
    scoreSkillFromMetadata py (.ofSkill skill) (SimpleSkillMatcher.normalize py message) =
      scoreCase py.toTextSearch skill (Server.normalize py.toTextSearch message)
  knowledgeScores : ∀ skill ∈ knowledge,
    scoreKnowledgeSkill py skill (SimpleSkillMatcher.normalize py message) =
      scoreKnowledge py.toTextSearch skill (Server.normalize py.toTextSearch message)
  selection : ∀ topK, SimpleSkillMatcher.matchSkills py ⟨cases, knowledge⟩ message topK =
    ((SkillEngine.load cases knowledge).matchSkills py.toTextSearch message topK).map
      PyMatchedSkill.ofMatched

theorem selection_eq {py : PyText} {cases knowledge : List SkillMetadata} {message : List Char}
    (h : ∀ skill ∈ cases, scoreCaseSkill py skill (SimpleSkillMatcher.normalize py message) =
      scoreCase py.toTextSearch skill (Server.normalize py.toTextSearch message)) (topK : Nat) :
    SimpleSkillMatcher.matchSkills py ⟨cases, knowledge⟩ message topK =
      ((SkillEngine.load cases knowledge).matchSkills py.toTextSearch message topK).map
        PyMatchedSkill.ofMatched := by
  simp only [SimpleSkillMatcher.matchSkills, SkillEngine.matchSkills, map_take]
  rw [map_mergeSort (s := fun a b => decide (b.score ≤ a.score))]
  · simp only [SkillEngine.load, filterMap_append, map_append, filterMap_map,
      map_filterMap]
    congr 3
    · apply filterMap_congr
      intro skill hskill
      simp only [h skill hskill, Function.comp_apply, SkillEngine.score]
      split
      · rename_i hscore
        simp [hscore, PyMatchedSkill.ofMatched]
      · rename_i hscore
        simp [hscore]
    · apply filterMap_congr
      intro skill _
      simp only [scoreKnowledge_eq, normalize_eq, Function.comp_apply, SkillEngine.score]
      split
      · rename_i hscore
        simp [hscore, PyMatchedSkill.ofMatched]
      · rename_i hscore
        simp [hscore]
  · intro a _ b _
    rfl

/-- The engine and the matcher agree on a message exactly when for each case the symptoms
that only one of them finds are equally many. -/
theorem engine_and_matcher_agree_iff (py : PyText) (cases knowledge : List SkillMetadata)
    (message : List Char) :
    Agree py cases knowledge message ↔
      ∀ skill ∈ cases, Balanced py (Server.normalize py.toTextSearch message) skill := by
  constructor
  · intro hagree skill hskill
    apply (scores_agree_iff_balanced py skill _).mp
    simpa only [normalize_eq] using hagree.caseScores skill hskill
  · intro hbalanced
    have hscores : ∀ skill ∈ cases,
        scoreCaseSkill py skill (SimpleSkillMatcher.normalize py message) =
          scoreCase py.toTextSearch skill (Server.normalize py.toTextSearch message) := by
      intro skill hskill
      rw [normalize_eq]
      exact (scores_agree_iff_balanced py skill _).mpr (hbalanced skill hskill)
    refine ⟨hscores, hscores, ?_, selection_eq hscores⟩
    intro skill _
    rw [normalize_eq, scoreKnowledge_eq]

/-- Digits, letters, the underscore and the common ideographs. -/
def isCommonWord (c : Char) : Bool :=
  let n := c.toNat
  (0x30 ≤ n && n ≤ 0x39) || (0x41 ≤ n && n ≤ 0x5a) || n = 0x5f || (0x61 ≤ n && n ≤ 0x7a) ||
    (0x4e00 ≤ n && n ≤ 0x9fff)

theorem blank_not_commonWord (c : Char) (h : isWhitespace c = true) : isCommonWord c = false := by
  simp only [isWhitespace, isCommonWord, Bool.or_eq_true, Bool.and_eq_true, decide_eq_true_eq,
    Bool.or_eq_false_iff, Bool.and_eq_false_iff, decide_eq_false_iff_not] at h ⊢
  omega

def commonText : PyText where
  lowercase := fun text => text.map Char.toLower
  found := fun pattern text => containsText pattern text
  isWord := isCommonWord
  blank_not_word := blank_not_commonWord

/-- A case without anything but one symptom. -/
def caseWithSymptom (symptom : String) : SkillMetadata where
  id := "s"
  name := []
  category := []
  description := []
  keywords := []
  symptoms := [symptom.toList]
  triggers := []
  tags := []
  content := []

/-- Only the engine finds two words of one and two ideographs; only the matcher finds two
words that a comma joins. -/
theorem ideographs_and_commas_disagree :
    (scoreCase commonText.toTextSearch (caseWithSymptom "锁 等待") "锁 等待".toList = 3 ∧
        scoreCaseSkill commonText (caseWithSymptom "锁 等待") "锁 等待".toList = 0 ∧
        ¬ Agree commonText [caseWithSymptom "锁 等待"] [] "锁 等待".toList) ∧
      scoreCase commonText.toTextSearch (caseWithSymptom "cpu,mem") "mem cpu".toList = 0 ∧
        scoreCaseSkill commonText (caseWithSymptom "cpu,mem") "mem cpu".toList = 3 ∧
        ¬ Agree commonText [caseWithSymptom "cpu,mem"] [] "mem cpu".toList := by
  refine ⟨⟨by decide, by decide, ?_⟩, by decide, by decide, ?_⟩
  · intro hagree
    exact absurd (hagree.caseScores _ mem_cons_self) (by decide)
  · intro hagree
    exact absurd (hagree.caseScores _ mem_cons_self) (by decide)

end DbClinic.Gateway
