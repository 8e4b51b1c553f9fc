import DbClinic.Runtime.Permissions

/-!
The enforcer in front of the built-in tools, and what its calls make of a deny
rule. The enforcer has no prompter. In the mode `prompt` both of its checks
allow the call and leave the decision to the caller's prompt.
-/

namespace DbClinic.Runtime

inductive EnforcementResult where
  | allowed
  | denied (tool activeMode requiredMode reason : String)
  deriving DecidableEq

def EnforcementResult.IsDenied : EnforcementResult → Prop
  | allowed => False
  | denied .. => True

instance (r : EnforcementResult) : Decidable r.IsDenied := by
  cases r <;> unfold EnforcementResult.IsDenied <;> infer_instance

structure PermissionEnforcer where
  policy : PermissionPolicy

/-- The enforcer never has a prompter to consult. -/
def noPrompter : Empty → PermissionRequest → PermissionPromptDecision × Empty := nofun

namespace PermissionEnforcer

section Checks

variable (fromStr : String → Option Value)

def check (enforcer : PermissionEnforcer) (toolName input : String) : EnforcementResult :=
  if enforcer.policy.activeMode = .prompt then .allowed
  else
    match (enforcer.policy.authorize noPrompter fromStr toolName input none).outcome with
    | .allow => .allowed
    | .deny reason =>
      .denied toolName enforcer.policy.activeMode.asStr
        (enforcer.policy.requiredModeFor toolName).asStr reason

end Checks

/-- No rule of the policy is looked at here. -/
def checkWithRequiredMode (enforcer : PermissionEnforcer) (toolName input : String)
    (requiredMode : PermissionMode) : EnforcementResult :=
  if enforcer.policy.activeMode = .prompt then .allowed
  else
    let activeMode := enforcer.policy.activeMode
    if requiredMode ≤ activeMode then .allowed
    else
      .denied toolName activeMode.asStr requiredMode.asStr
        ("'" ++ toolName ++ "' with input '" ++ input ++ "' requires '" ++ requiredMode.asStr ++
          "' permission, but current mode is '" ++ activeMode.asStr ++ "'")

theorem checkWithRequiredMode_isDenied (enforcer : PermissionEnforcer) (toolName input : String)
    (requiredMode : PermissionMode) :
    (enforcer.checkWithRequiredMode toolName input requiredMode).IsDenied ↔
      enforcer.policy.activeMode ≠ .prompt ∧ ¬ requiredMode ≤ enforcer.policy.activeMode := by
  unfold checkWithRequiredMode
  split
  · rename_i hprompt
    simp [EnforcementResult.IsDenied, hprompt]
  · rename_i hprompt
    dsimp only
    split
    · rename_i hmode
      simp [EnforcementResult.IsDenied, hmode]
    · rename_i hmode
      simp [EnforcementResult.IsDenied, hprompt, hmode]

/-- Outside the mode `prompt`, a deny rule that matches is a denial. -/
theorem check_isDenied {fromStr : String → Option Value} {enforcer : PermissionEnforcer}
    {toolName input : String}
    (hdenied : (findMatchingRule fromStr enforcer.policy.denyRules toolName input).isSome = true) :
    (enforcer.check fromStr toolName input).IsDenied ↔ enforcer.policy.activeMode ≠ .prompt := by
  obtain ⟨reason, hauthorize⟩ :=
    PermissionPolicy.authorizeWithContext_denied noPrompter fromStr hdenied .empty none
  unfold check
  split
  · rename_i hprompt
    simp [EnforcementResult.IsDenied, hprompt]
  · rename_i hprompt
    have houtcome : (enforcer.policy.authorize noPrompter fromStr toolName input none).outcome =
        .deny reason := by
      unfold PermissionPolicy.authorize
      rw [hauthorize]
      rfl
    rw [houtcome]
    simp [EnforcementResult.IsDenied, hprompt]

end PermissionEnforcer

def Denies (fromStr : String → Option Value) (policy : PermissionPolicy)
    (toolName input : String) : Prop :=
  ∃ rule ∈ policy.denyRules, rule.isMatch fromStr toolName input = true

/-- A matching deny rule denies every authorisation, whatever the hook says, and
puts no request to the prompter; the enforcer's check denies in every mode but
`prompt`, in which both checks defer to the caller's prompt. -/
theorem deny_rule_denies (fromStr : String → Option Value) (policy : PermissionPolicy)
    (toolName input : String) (hdenies : Denies fromStr policy toolName input) :
    (∀ {P : Type} (decide : P → PermissionRequest → PermissionPromptDecision × P)
        (context : PermissionContext) (prompter : Option P), ∃ reason,
        policy.authorizeWithContext decide fromStr toolName input context prompter =
          .unasked (.deny reason) prompter) ∧
      (policy.activeMode ≠ .prompt →
        ((PermissionEnforcer.mk policy).check fromStr toolName input).IsDenied) ∧
      (policy.activeMode = .prompt →
        (PermissionEnforcer.mk policy).check fromStr toolName input = .allowed ∧
          ∀ requiredMode, (PermissionEnforcer.mk policy).checkWithRequiredMode toolName input
            requiredMode = .allowed) := by
  have hdenied := (findMatchingRule_isSome fromStr).mpr hdenies
  refine ⟨fun decide context prompter =>
    PermissionPolicy.authorizeWithContext_denied decide fromStr hdenied context prompter, ?_, ?_⟩
  · intro hmode
    exact (@PermissionEnforcer.check_isDenied _ ⟨policy⟩ _ _ hdenied).mpr hmode
  · intro hmode
    refine ⟨if_pos hmode, fun requiredMode => if_pos hmode⟩

/-- A policy with one deny rule, written as in a settings file. -/
def denyRemovals (activeMode : PermissionMode) : PermissionPolicy :=
  (PermissionPolicy.new activeMode).withPermissionRules ⟨[], ["bash(rm:*)"], []⟩

/-- What `serde_json` reads from `rmInput`. -/
def rmInput : String := "\x7b\"command\":\"rm -rf build\"\x7d"

def readRmInput (text : String) : Option Value :=
  if text = rmInput then some (.object [("command", .string "rm -rf build")]) else none

theorem deny_rule_denies_rm :
    ((PermissionEnforcer.mk (denyRemovals .allow)).check readRmInput "bash" rmInput).IsDenied :=
  (deny_rule_denies readRmInput (denyRemovals .allow) "bash" rmInput
    ⟨⟨"bash(rm:*)", "bash", .startsWith "rm"⟩, by decide +kernel, by decide +kernel⟩).2.1
      (by decide)

/-- In the mode `prompt` the enforcer allows what a deny rule matches. -/
theorem prompt_mode_defers_denied_call :
    Denies readRmInput (denyRemovals .prompt) "bash" rmInput ∧
      ¬ ((PermissionEnforcer.mk (denyRemovals .prompt)).check readRmInput "bash"
        rmInput).IsDenied := by
  refine ⟨⟨⟨"bash(rm:*)", "bash", .startsWith "rm"⟩, by decide +kernel, by decide +kernel⟩, ?_⟩
  decide +kernel

end DbClinic.Runtime
