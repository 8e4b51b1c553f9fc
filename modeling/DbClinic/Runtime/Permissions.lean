import DbClinic.Runtime.Text

/-!
The permission policy of a runtime: modes, rules, and the authorisation of one
tool call. The JSON parser of `serde_json` is a parameter; of the values it
returns only objects and strings are looked at. A prompter is its state and its
answer to a request, and an authorisation reports the requests it put to it.
-/

namespace DbClinic.Runtime

inductive PermissionMode where
  | readOnly
  | workspaceWrite
  | dangerFullAccess
  | prompt
  | allow
  deriving DecidableEq

namespace PermissionMode

def asStr : PermissionMode → String
  | readOnly => "read-only"
  | workspaceWrite => "workspace-write"
  | dangerFullAccess => "danger-full-access"
  | prompt => "prompt"
  | allow => "allow"

/-- The derived order is the order of the variants. -/
def rank : PermissionMode → Nat
  | readOnly => 0
  | workspaceWrite => 1
  | dangerFullAccess => 2
  | prompt => 3
  | allow => 4

instance : LE PermissionMode := ⟨fun a b => a.rank ≤ b.rank⟩

instance (a b : PermissionMode) : Decidable (a ≤ b) := inferInstanceAs (Decidable (_ ≤ _))

end PermissionMode

inductive PermissionOverride where
  | allow
  | deny
  | ask
  deriving DecidableEq

structure PermissionContext where
  overrideDecision : Option PermissionOverride
  overrideReason : Option String
  deriving DecidableEq

/-- `PermissionContext::default`. -/
def PermissionContext.empty : PermissionContext := ⟨none, none⟩

structure PermissionRequest where
  toolName : String
  input : String
  currentMode : PermissionMode
  requiredMode : PermissionMode
  reason : Option String
  deriving DecidableEq

inductive PermissionPromptDecision where
  | allow
  | deny (reason : String)
  deriving DecidableEq

inductive PermissionOutcome where
  | allow
  | deny (reason : String)
  deriving DecidableEq

inductive PermissionRuleMatcher where
  | any
  | exact (expected : String)
  | startsWith (text : String)
  deriving DecidableEq

structure PermissionRule where
  raw : String
  toolName : String
  matcher : PermissionRuleMatcher
  deriving DecidableEq

structure RuntimePermissionRuleConfig where
  allow : List String
  deny : List String
  ask : List String

/-- A value of `serde_json`; everything but strings and objects is `other`. -/
inductive Value where
  | string (text : String)
  | object (fields : List (String × Value))
  | other

def Value.asStr : Value → Option String
  | .string text => some text
  | _ => none

def findFirstUnescaped (needle : Char) :
    (escaped : Bool) → (position : Nat) → List Char → Option Nat
  | _, _, [] => none
  | escaped, position, c :: rest =>
    if c = '\\' then findFirstUnescaped needle (!escaped) (position + 1) rest
    else if c = needle ∧ escaped = false then some position
    else findFirstUnescaped needle false (position + 1) rest

def findLastUnescaped (needle : Char) (value : List Char) : Option Nat :=
  (List.range value.length).reverse.find? fun position =>
    value[position]? = some needle &&
      ((value.take position).reverse.takeWhile (· = '\\')).length % 2 = 0

def unescapeRuleContent (content : List Char) : List Char :=
  replaceText ['\\', '\\'] ['\\']
    (replaceText ['\\', ')'] [')'] (replaceText ['\\', '('] ['('] content))

def parseRuleMatcher (content : List Char) : PermissionRuleMatcher :=
  let unescaped := unescapeRuleContent (trim content)
  if unescaped = [] ∨ unescaped = ['*'] then .any
  else
    match stripSuffix [':', '*'] unescaped with
    | some text => .startsWith (String.ofList text)
    | none => .exact (String.ofList unescaped)

namespace PermissionRule

def ofWhole (trimmed : List Char) : PermissionRule :=
  ⟨String.ofList trimmed, String.ofList trimmed, .any⟩

def parse (raw : String) : PermissionRule :=
  let trimmed := trim raw.toList
  match findFirstUnescaped '(' false 0 trimmed, findLastUnescaped ')' trimmed with
  | some first, some last =>
    if last = trimmed.length - 1 ∧ first < last then
      let toolName := trim (trimmed.take first)
      let content := (trimmed.take last).drop (first + 1)
      if toolName ≠ [] then
        ⟨String.ofList trimmed, String.ofList toolName, parseRuleMatcher content⟩
      else ofWhole trimmed
    else ofWhole trimmed
  | _, _ => ofWhole trimmed

end PermissionRule

structure PermissionPolicy where
  activeMode : PermissionMode
  toolRequirements : List (String × PermissionMode)
  allowRules : List PermissionRule
  denyRules : List PermissionRule
  askRules : List PermissionRule
  deriving DecidableEq

structure Authorization (P : Type) where
  outcome : PermissionOutcome
  prompter : Option P
  asked : List PermissionRequest

def Authorization.unasked {P : Type} (outcome : PermissionOutcome) (prompter : Option P) :
    Authorization P :=
  ⟨outcome, prompter, []⟩

section Matching

variable (fromStr : String → Option Value)

/-- The keys whose text a rule is matched against, the first present one
counts. -/
def subjectKeys : List String :=
  ["command", "path", "file_path", "filePath", "notebook_path", "notebookPath", "url", "pattern",
    "code", "message"]

def extractPermissionSubject (input : String) : Option String :=
  let wholeInput := if trim input.toList ≠ [] then some input else none
  match fromStr input with
  | some (.object fields) =>
    match subjectKeys.findSome? fun key => (getEntry fields key).bind Value.asStr with
    | some subject => some subject
    | none => wholeInput
  | _ => wholeInput

def PermissionRule.isMatch (rule : PermissionRule) (toolName input : String) : Bool :=
  if rule.toolName ≠ toolName then false
  else
    match rule.matcher with
    | .any => true
    | .exact expected =>
      (extractPermissionSubject fromStr input).any fun candidate => candidate = expected
    | .startsWith text =>
      (extractPermissionSubject fromStr input).any fun candidate =>
        text.toList.isPrefixOf candidate.toList

def findMatchingRule (rules : List PermissionRule) (toolName input : String) :
    Option PermissionRule :=
  rules.find? fun rule => rule.isMatch fromStr toolName input

theorem findMatchingRule_isSome {rules : List PermissionRule} {toolName input : String} :
    (findMatchingRule fromStr rules toolName input).isSome = true ↔
      ∃ rule ∈ rules, rule.isMatch fromStr toolName input = true := by
  simp [findMatchingRule, List.find?_isSome]

end Matching

namespace PermissionPolicy

def new (activeMode : PermissionMode) : PermissionPolicy := ⟨activeMode, [], [], [], []⟩

def withToolRequirement (policy : PermissionPolicy) (toolName : String)
    (requiredMode : PermissionMode) : PermissionPolicy :=
  { policy with toolRequirements := insertEntry toolName requiredMode policy.toolRequirements }

def withPermissionRules (policy : PermissionPolicy) (config : RuntimePermissionRuleConfig) :
    PermissionPolicy :=
  { policy with
    allowRules := config.allow.map PermissionRule.parse
    denyRules := config.deny.map PermissionRule.parse
    askRules := config.ask.map PermissionRule.parse }

def requiredModeFor (policy : PermissionPolicy) (toolName : String) : PermissionMode :=
  (getEntry policy.toolRequirements toolName).getD .dangerFullAccess

section Authorize

variable {P : Type} (decide : P → PermissionRequest → PermissionPromptDecision × P)
variable (fromStr : String → Option Value)

def promptOrDeny (toolName input : String) (currentMode requiredMode : PermissionMode)
    (reason : Option String) : Option P → Authorization P
  | some prompter =>
    let request := ⟨toolName, input, currentMode, requiredMode, reason⟩
    match decide prompter request with
    | (.allow, prompter') => ⟨.allow, some prompter', [request]⟩
    | (.deny text, prompter') => ⟨.deny text, some prompter', [request]⟩
  | none =>
    .unasked (.deny (reason.getD ("tool '" ++ toolName ++
      "' requires approval to run while mode is " ++ currentMode.asStr))) none

def authorizeWithContext (policy : PermissionPolicy) (toolName input : String)
    (context : PermissionContext) (prompter : Option P) : Authorization P :=
  match findMatchingRule fromStr policy.denyRules toolName input with
  | some rule =>
    .unasked (.deny ("Permission to use " ++ toolName ++ " has been denied by rule '" ++
      rule.raw ++ "'")) prompter
  | none =>
    let currentMode := policy.activeMode
    let requiredMode := policy.requiredModeFor toolName
    let askRule := findMatchingRule fromStr policy.askRules toolName input
    let allowRule := findMatchingRule fromStr policy.allowRules toolName input
    let ask (reason : String) :=
      promptOrDeny decide toolName input currentMode requiredMode (some reason) prompter
    let askByRule (rule : PermissionRule) :=
      ask ("tool '" ++ toolName ++ "' requires approval due to ask rule '" ++ rule.raw ++ "'")
    -- what follows the hook's override
    let standard :=
      match askRule with
      | some rule => askByRule rule
      | none =>
        if allowRule.isSome ∨ currentMode = .allow ∨ requiredMode ≤ currentMode then
          .unasked .allow prompter
        else if currentMode = .prompt ∨
            (currentMode = .workspaceWrite ∧ requiredMode = .dangerFullAccess) then
          ask ("tool '" ++ toolName ++ "' requires approval to escalate from " ++
            currentMode.asStr ++ " to " ++ requiredMode.asStr)
        else
          .unasked (.deny ("tool '" ++ toolName ++ "' requires " ++ requiredMode.asStr ++
            " permission; current mode is " ++ currentMode.asStr)) prompter
    match context.overrideDecision with
    | some .deny =>
      .unasked (.deny (context.overrideReason.getD ("tool '" ++ toolName ++
        "' denied by hook"))) prompter
    | some .ask =>
      ask (context.overrideReason.getD ("tool '" ++ toolName ++
        "' requires approval due to hook guidance"))
    | some .allow =>
      match askRule with
      | some rule => askByRule rule
      | none =>
        if allowRule.isSome ∨ currentMode = .allow ∨ requiredMode ≤ currentMode then
          .unasked .allow prompter
        else standard
    | none => standard

def authorize (policy : PermissionPolicy) (toolName input : String) (prompter : Option P) :
    Authorization P :=
  authorizeWithContext decide fromStr policy toolName input .empty prompter

theorem authorizeWithContext_denied {policy : PermissionPolicy} {toolName input : String}
    (hdenied : (findMatchingRule fromStr policy.denyRules toolName input).isSome = true)
    (context : PermissionContext) (prompter : Option P) :
    ∃ reason, authorizeWithContext decide fromStr policy toolName input context prompter =
      .unasked (.deny reason) prompter := by
  obtain ⟨rule, hrule⟩ := Option.isSome_iff_exists.mp hdenied
  refine ⟨"Permission to use " ++ toolName ++ " has been denied by rule '" ++ rule.raw ++ "'", ?_⟩
  unfold authorizeWithContext
  rw [hrule]

theorem promptOrDeny_prompter {Q : P → Prop} (hdecide : ∀ p request, Q p → Q (decide p request).2)
    (toolName input : String) (currentMode requiredMode : PermissionMode) (reason : Option String)
    {prompter : Option P} (h : ∀ p ∈ prompter, Q p) :
    ∀ p ∈ (promptOrDeny decide toolName input currentMode requiredMode reason prompter).prompter,
      Q p := by
  cases prompter with
  | none => exact h
  | some p =>
    have hp := hdecide p ⟨toolName, input, currentMode, requiredMode, reason⟩ (h p rfl)
    unfold promptOrDeny
    dsimp only
    split
    · rename_i hanswer
      rw [hanswer] at hp
      intro p' hp'
      cases hp'
      exact hp
    · rename_i hanswer
      rw [hanswer] at hp
      intro p' hp'
      cases hp'
      exact hp

theorem authorizeWithContext_prompter {Q : P → Prop}
    (hdecide : ∀ p request, Q p → Q (decide p request).2) (policy : PermissionPolicy)
    (toolName input : String) (context : PermissionContext) {prompter : Option P}
    (h : ∀ p ∈ prompter, Q p) :
    ∀ p ∈ (authorizeWithContext decide fromStr policy toolName input context prompter).prompter,
      Q p := by
  have hask := fun reason => promptOrDeny_prompter decide hdecide toolName input policy.activeMode
    (policy.requiredModeFor toolName) reason h
  unfold authorizeWithContext
  dsimp only
  split
  · exact h
  · split
    · exact h
    · exact hask _
    · split
      · exact hask _
      · split
        · exact h
        · -- the override allows nothing: the standard rules follow
          split
          · exact hask _
          · split
            · exact hask _
            · exact h
    · split
      · exact hask _
      · split
        · exact h
        · split
          · exact hask _
          · exact h

end Authorize

end PermissionPolicy

end DbClinic.Runtime
