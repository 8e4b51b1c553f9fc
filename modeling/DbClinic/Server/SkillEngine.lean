import DbClinic.Runtime.Text

/-!
The skill engine: the score of a skill against a message, the ranking of the skills
that score, and the context that is put before a user's text. Scores are counted in
halves. The change to lower case and the search for a pattern are a parameter; a
pattern that does not compile is found nowhere.
-/

namespace DbClinic.Server

open DbClinic.Runtime

/-- What the front matter and the body of a skill file hold. -/
structure SkillMetadata where
  id : String
  name : List Char
  category : List Char
  description : List Char
  keywords : List (List Char)
  symptoms : List (List Char)
  triggers : List (List Char)
  tags : List (List Char)
  content : List Char
  deriving DecidableEq

inductive SkillType where
  | case
  | knowledge
  deriving DecidableEq

structure LoadedSkill extends SkillMetadata where
  skillType : SkillType
  deriving DecidableEq

structure MatchedSkill where
  id : String
  name : List Char
  category : List Char
  score : Nat
  skillType : SkillType
  description : List Char
  deriving DecidableEq

structure SkillEngine where
  skills : List LoadedSkill

structure TextSearch where
  lowercase : List Char → List Char
  found : (pattern text : List Char) → Bool

def categoryHints : List (String × List String) :=
  [("slow_sql", ["slow", "慢查询", "slow query", "timeout", "duration", "执行计划", "explain",
      "seq scan", "full table scan", "performance", "速度"]),
    ("lock", ["lock", "deadlock", "死锁", "锁", "blocking", "blocked", "waiting",
      "idle in transaction", "lock wait"]),
    ("index", ["index", "索引", "create index", "missing index", "seq scan", "no index"]),
    ("wait_events", ["wait event", "lwlock", "io wait", "等待", "clientread", "wait_event"]),
    ("vacuum", ["vacuum", "autovacuum", "bloat", "dead tuple", "dead rows", "膨胀"])]

/-- `str::len`. -/
def utf8Length (cs : List Char) : Nat := (cs.map Char.utf8Size).sum

def addEach {α : Type} (weight : Nat) (counts : α → Bool) (items : List α) (score : Nat) : Nat :=
  items.foldl (fun score item => if counts item then score + weight else score) score

def hits (context : List Char) (words : List (List Char)) : Nat :=
  words.countP fun word => containsText word context

section Scores

variable (search : TextSearch)

def normalize (text : List Char) : List Char :=
  (search.lowercase text).map fun c => if c = '_' ∨ c = '-' then ' ' else c

/-- The words of a symptom: at least three bytes between blanks. -/
def symptomWords (symptom : List Char) : List (List Char) :=
  (splitWhitespace (normalize search symptom)).filter fun word => 3 ≤ utf8Length word

def hinted (category context : List Char) : Bool :=
  match categoryHints.find? fun hint => hint.1.toList = category with
  | some (_, hintWords) => hintWords.any fun word => containsText word.toList context
  | none => false

def scoreCase (skill : SkillMetadata) (context : List Char) : Nat :=
  let score := addEach 4 (fun kw => containsText (normalize search kw) context) skill.keywords 0
  let score := addEach 3 (fun symptom => 2 ≤ hits context (symptomWords search symptom))
    skill.symptoms score
  let score := addEach 6 (fun trigger => search.found trigger context) skill.triggers score
  if hinted skill.category context then score + 2 else score

def scoreKnowledge (skill : SkillMetadata) (context : List Char) : Nat :=
  let score := addEach 4 (fun kw => containsText (normalize search kw) context) skill.keywords 0
  addEach 1 (fun tag => containsText (normalize search tag) context) skill.tags score

end Scores

namespace SkillEngine

/-- `load`, after the files are read: the cases come first. -/
def load (cases knowledge : List SkillMetadata) : SkillEngine where
  skills := cases.map (fun skill => { skill with skillType := .case }) ++
    knowledge.map fun skill => { skill with skillType := .knowledge }

def score (search : TextSearch) (skill : LoadedSkill) (context : List Char) : Nat :=
  match skill.skillType with
  | .case => scoreCase search skill.toSkillMetadata context
  | .knowledge => scoreKnowledge search skill.toSkillMetadata context

def matchSkills (engine : SkillEngine) (search : TextSearch) (userMessage : List Char)
    (topK : Nat) : List MatchedSkill :=
  let context := normalize search userMessage
  let scored := engine.skills.filterMap fun skill =>
    let score := score search skill context
    if 0 < score then
      some { id := skill.id, name := skill.name, category := skill.category, score
             skillType := skill.skillType, description := skill.description }
    else none
  (scored.mergeSort fun a b => decide (b.score ≤ a.score)).take topK

/-- `select_by_ids`: the choice of the user is trusted. -/
def selectByIds (engine : SkillEngine) (ids : List String) : List MatchedSkill :=
  (ids.filterMap fun id => engine.skills.find? fun skill => skill.id = id).map fun skill =>
    { id := skill.id, name := skill.name, category := skill.category, score := 2
      skillType := skill.skillType, description := skill.description }

def skillMap (engine : SkillEngine) (id : String) : Option LoadedSkill :=
  engine.skills.reverse.find? fun skill => skill.id = id

def skillLines (skill : LoadedSkill) : List (List Char) :=
  match skill.skillType with
  | .case =>
    ["## Skill: ".toList ++ skill.name, "Category: ".toList ++ skill.category] ++
      (if skill.description ≠ [] then ["Description: ".toList ++ skill.description] else []) ++
      [[], skill.content, []]
  | .knowledge =>
    ["### Knowledge: ".toList ++ skill.name] ++
      (if skill.description ≠ [] then ['*' :: skill.description ++ ['*']] else []) ++
      [[], skill.content, []]

def contextHeader : List Char := "[Matched Diagnostic Skills]".toList

def contextEnd : List Char := "[End of Matched Skills]".toList

def buildContext (engine : SkillEngine) (matched : List MatchedSkill) : List Char :=
  if matched = [] then []
  else
    let lines := [contextHeader, []] ++
      matched.flatMap (fun m => ((engine.skillMap m.id).map skillLines).getD []) ++ [contextEnd]
    ['\n'].intercalate lines

end SkillEngine

end DbClinic.Server
