import DbClinic.Runtime.Hooks

/-!
What a chain of hooks decides about the permission of a tool call. A hook that
denies by its exit code, or with `continue` or `decision`, ends the chain; a
`permissionDecision` does not, and the last one of the chain counts.
-/

namespace DbClinic.Runtime

namespace HookCommandOutcome

/-- The output that is merged into the result of the chain. -/
def parsed : HookCommandOutcome → Option ParsedHookOutput
  | allow parsed => some parsed
  | deny parsed => some parsed
  | failed parsed => some parsed
  | cancelled _ => none

/-- The `permissionDecision` of a hook. -/
def decision (outcome : HookCommandOutcome) : Option PermissionOverride :=
  outcome.parsed.bind ParsedHookOutput.permissionOverride

def Denies : HookCommandOutcome → Prop
  | deny _ => True
  | _ => False

end HookCommandOutcome

/-- The hooks that are run: up to the first that does not allow. -/
def executed : List HookCommandOutcome → List HookCommandOutcome
  | [] => []
  | .allow parsed :: rest => .allow parsed :: executed rest
  | outcome :: _ => [outcome]

def decisions (outcomes : List HookCommandOutcome) : List PermissionOverride :=
  (executed outcomes).filterMap HookCommandOutcome.decision

/-- A denial stays a denial to the end of the chain, and where no hook denies, a
request to ask does not become an allowance. -/
def DenialKept (outcomes : List HookCommandOutcome) (result : HookRunResult) : Prop :=
  (.deny ∈ decisions outcomes →
      result.denied = true ∨ result.permissionOverride = some .deny) ∧
    ((∀ outcome ∈ executed outcomes, ¬ outcome.Denies) → .deny ∉ decisions outcomes →
      .ask ∈ decisions outcomes → result.permissionOverride ≠ some .allow)

/-- How much a decision forbids. -/
def PermissionOverride.strictness : PermissionOverride → Nat
  | allow => 0
  | ask => 1
  | deny => 2

/-- The last decision of the hooks that are run is the strictest of theirs. -/
def LastIsStrictest (outcomes : List HookCommandOutcome) : Prop :=
  ∀ last, (decisions outcomes).getLast? = some last →
    ∀ d ∈ decisions outcomes, d.strictness ≤ last.strictness

theorem getLast?_toList_append {α : Type} (first : Option α) (rest : List α) :
    (first.toList ++ rest).getLast? = rest.getLast?.or first := by
  rw [List.getLast?_append]
  cases first with
  | none => simp
  | some d => simp

theorem getLast?_toList {α : Type} (o : Option α) : o.toList.getLast? = o := by
  cases o with
  | none => rfl
  | some d => rfl

section Fields

variable {β : Type} (field : ParsedHookOutput → Option β)

theorem filterMap_executed_allow (parsed : ParsedHookOutput) (rest : List HookCommandOutcome) :
    (executed (.allow parsed :: rest)).filterMap (·.parsed.bind field) =
      (field parsed).toList ++ (executed rest).filterMap (·.parsed.bind field) := by
  cases hfield : field parsed <;> simp [executed, HookCommandOutcome.parsed, hfield]

theorem filterMap_executed_single {outcome : HookCommandOutcome} {rest : List HookCommandOutcome}
    (h : executed (outcome :: rest) = [outcome]) :
    (executed (outcome :: rest)).filterMap (·.parsed.bind field) =
      (outcome.parsed.bind field).toList := by
  rw [h]
  cases hfield : outcome.parsed.bind field <;> simp [hfield]

theorem runOutcomes_field (get : HookRunResult → Option β)
    (hmerge : ∀ result parsed, get (mergeParsedHookOutput result parsed) =
      (field parsed).or (get result))
    (hflags : ∀ (result : HookRunResult) denied failed cancelled messages,
      get { result with
        denied := denied, failed := failed, cancelled := cancelled, messages := messages } =
          get result)
    (result : HookRunResult) (outcomes : List HookCommandOutcome) :
    get (runOutcomes result outcomes) =
      ((executed outcomes).filterMap (·.parsed.bind field)).getLast?.or (get result) := by
  induction outcomes generalizing result with
  | nil => simp [runOutcomes, executed]
  | cons outcome rest ih =>
    cases outcome with
    | allow parsed =>
      unfold runOutcomes
      rw [ih, hmerge, filterMap_executed_allow, getLast?_toList_append, Option.or_assoc]
    | deny parsed =>
      rw [filterMap_executed_single field rfl, getLast?_toList]
      exact (hflags _ _ _ _ _).trans (hmerge result parsed)
    | failed parsed =>
      rw [filterMap_executed_single field rfl, getLast?_toList]
      exact (hflags _ _ _ _ _).trans (hmerge result parsed)
    | cancelled message =>
      rw [filterMap_executed_single field rfl, getLast?_toList]
      exact hflags result _ _ _ _

end Fields

theorem runOutcomes_override (result : HookRunResult) (outcomes : List HookCommandOutcome) :
    (runOutcomes result outcomes).permissionOverride =
      (decisions outcomes).getLast?.or result.permissionOverride :=
  runOutcomes_field ParsedHookOutput.permissionOverride HookRunResult.permissionOverride
    (fun _ _ => rfl) (fun _ _ _ _ _ => rfl) result outcomes

theorem runOutcomes_denied (result : HookRunResult) (outcomes : List HookCommandOutcome) :
    (runOutcomes result outcomes).denied = true ↔
      result.denied = true ∨ ∃ outcome ∈ executed outcomes, outcome.Denies := by
  induction outcomes generalizing result with
  | nil => simp [runOutcomes, executed]
  | cons outcome rest ih =>
    cases outcome with
    | allow parsed =>
      have hmerged : (mergeParsedHookOutput result parsed).denied = result.denied := rfl
      unfold runOutcomes executed
      rw [ih, hmerged]
      simp [HookCommandOutcome.Denies]
    | deny parsed => simp [runOutcomes, executed, HookCommandOutcome.Denies]
    | failed parsed =>
      simp [runOutcomes, executed, HookCommandOutcome.Denies, mergeParsedHookOutput]
    | cancelled message => simp [runOutcomes, executed, HookCommandOutcome.Denies]

theorem denialKept_iff_of_not_denied {outcomes : List HookCommandOutcome} {result : HookRunResult}
    (hnone : ∀ outcome ∈ executed outcomes, ¬ outcome.Denies) (hdenied : ¬ result.denied = true)
    (hoverride : result.permissionOverride = (decisions outcomes).getLast?) :
    DenialKept outcomes result ↔ LastIsStrictest outcomes := by
  unfold DenialKept LastIsStrictest
  rw [hoverride]
  constructor
  · rintro ⟨hdeny, hask⟩ last hlast d hd
    cases d with
    | allow => exact Nat.zero_le _
    | deny =>
      rcases hdeny hd with h | h
      · exact absurd h hdenied
      · rw [hlast] at h
        cases h
        exact Nat.le_refl _
    | ask =>
      cases last with
      | allow =>
        have hnodeny : PermissionOverride.deny ∉ decisions outcomes := by
          intro hmem
          rcases hdeny hmem with h | h
          · exact hdenied h
          · rw [hlast] at h
            cases h
        exact absurd hlast (hask hnone hnodeny hd)
      | ask => exact Nat.le_refl _
      | deny => decide
  · intro hstrict
    have hsome : ∀ d ∈ decisions outcomes, ∃ last, (decisions outcomes).getLast? = some last := by
      intro d hd
      exact ⟨_, List.getLast?_eq_some_getLast (List.ne_nil_of_mem hd)⟩
    constructor
    · intro hd
      obtain ⟨last, hlast⟩ := hsome _ hd
      have hle := hstrict last hlast _ hd
      right
      rw [hlast]
      cases last with
      | deny => rfl
      | allow => exact absurd hle (by decide)
      | ask => exact absurd hle (by decide)
    · intro _ _ hd hallow
      exact absurd (hstrict _ hallow _ hd) (by decide)

/-- A chain keeps the denials of its hooks exactly if it ends with a hook that
denies, or the last decision of the hooks that are run is the strictest one. A
chain that is aborted before it starts runs none of them. -/
theorem chain_keeps_denial_iff (json : SerdeJson) (event : HookEvent) (toolName : String)
    (commands : List (String × CommandExecution)) (aborted : Bool) :
    DenialKept (if aborted then [] else outcomes json event toolName commands)
        (runCommands json event commands toolName aborted) ↔
      aborted = true ∨
        (∃ outcome ∈ executed (outcomes json event toolName commands), outcome.Denies) ∨
        LastIsStrictest (outcomes json event toolName commands) := by
  cases aborted with
  | true =>
    refine iff_of_true ?_ (Or.inl rfl)
    constructor
    · intro hd
      exact absurd hd List.not_mem_nil
    · intro _ _ hd
      exact absurd hd List.not_mem_nil
  | false =>
    have hrun : runCommands json event commands toolName false =
        runOutcomes (.allow []) (outcomes json event toolName commands) := by
      cases commands with
      | nil => rfl
      | cons command rest => rfl
    have hoverride := runOutcomes_override (.allow []) (outcomes json event toolName commands)
    have hdenied := runOutcomes_denied (.allow []) (outcomes json event toolName commands)
    rw [hrun]
    simp only [Bool.false_eq_true, if_false, false_or]
    by_cases hsome : ∃ outcome ∈ executed (outcomes json event toolName commands), outcome.Denies
    · refine iff_of_true ⟨fun _ => Or.inl (hdenied.mpr (Or.inr hsome)), fun hnone => ?_⟩
        (Or.inl hsome)
      obtain ⟨outcome, hmem, hdenies⟩ := hsome
      exact absurd hdenies (hnone outcome hmem)
    · rw [or_iff_right hsome]
      apply denialKept_iff_of_not_denied
      · intro outcome hmem hdenies
        exact hsome ⟨outcome, hmem, hdenies⟩
      · intro htrue
        rcases hdenied.mp htrue with h | h
        · cases h
        · exact hsome h
      · rw [hoverride]
        exact Option.or_none

def decisionOutput (decision : String) : String :=
  "\x7b\"hookSpecificOutput\":\x7b\"permissionDecision\":\"" ++ decision ++ "\"\x7d\x7d"

def decisionValue (decision : String) : Serde.Value :=
  .object [("hookSpecificOutput", .object [("permissionDecision", .string decision)])]

def twoOutputs : SerdeJson where
  fromStr text :=
    if text = decisionOutput "deny" then .ok (decisionValue "deny")
    else if text = decisionOutput "allow" then .ok (decisionValue "allow")
    else .error "expected value at line 1 column 1"
  toText _ := none

/-- A hook that denies, and one after it that allows. -/
def denyThenAllow : List (String × CommandExecution) :=
  [("first", .finished (some 0) (decisionOutput "deny") ""),
    ("second", .finished (some 0) (decisionOutput "allow") "")]

theorem allow_lifts_deny :
    ¬ DenialKept (outcomes twoOutputs .preToolUse "bash" denyThenAllow)
      (runCommands twoOutputs .preToolUse denyThenAllow "bash" false) := by
  intro h
  have hkept := h.1 (by decide +kernel)
  revert hkept
  decide +kernel

end DbClinic.Runtime
