import DbClinic.Runtime.PermissionEnforcer

/-!
What an authorisation allows in the mode `prompt`. The modes are compared by the
order of the variants, and `prompt` stands above all that a tool requires unless
that is `allow`; so a call that no rule and no hook sends to the prompter runs
without having been put to it.
-/

namespace DbClinic.Runtime

namespace PermissionPolicy

section PromptMode

variable {P : Type} (decide : P → PermissionRequest → PermissionPromptDecision × P)
variable (fromStr : String → Option Value)

/-- There was a prompter, it was asked once, about this tool and this input, and
its answer was to allow. -/
def Approved (toolName input : String) (prompter : Option P) (asked : List PermissionRequest) :
    Prop :=
  ∃ p request, prompter = some p ∧ asked = [request] ∧ request.toolName = toolName ∧
    request.input = input ∧ (decide p request).1 = .allow

def RunsOnlyApproved (policy : PermissionPolicy) (toolName input : String)
    (context : PermissionContext) (prompter : Option P) : Prop :=
  (policy.authorizeWithContext decide fromStr toolName input context prompter).outcome = .allow →
    Approved decide toolName input prompter
      (policy.authorizeWithContext decide fromStr toolName input context prompter).asked

def Asks (policy : PermissionPolicy) (toolName input : String) : Prop :=
  ∃ rule ∈ policy.askRules, rule.isMatch fromStr toolName input = true

/-- A rule or the hook refuses the call or sends it to the prompter, or the tool
requires the one mode that is above `prompt`. -/
def Guarded (policy : PermissionPolicy) (toolName input : String) (context : PermissionContext) :
    Prop :=
  Denies fromStr policy toolName input ∨ context.overrideDecision = some .deny ∨
    context.overrideDecision = some .ask ∨ policy.Asks fromStr toolName input ∨
    policy.requiredModeFor toolName = .allow

variable {decide fromStr}

theorem promptOrDeny_approved {toolName input : String} {currentMode requiredMode : PermissionMode}
    {reason : Option String} {prompter : Option P}
    (h : (promptOrDeny decide toolName input currentMode requiredMode reason prompter).outcome =
      .allow) :
    Approved decide toolName input prompter
      (promptOrDeny decide toolName input currentMode requiredMode reason prompter).asked := by
  cases prompter with
  | none => cases h
  | some p =>
    unfold promptOrDeny at h ⊢
    dsimp only at h ⊢
    split at h
    · rename_i hanswer
      exact ⟨p, _, rfl, rfl, rfl, rfl, by rw [hanswer]⟩
    · cases h

theorem required_le_prompt_iff {required : PermissionMode} :
    required ≤ .prompt ↔ required ≠ .allow := by
  cases required <;> decide

variable {policy : PermissionPolicy} {toolName input : String} {context : PermissionContext}

theorem authorizeWithContext_guarded (hmode : policy.activeMode = .prompt)
    (hrules : findMatchingRule fromStr policy.allowRules toolName input = none)
    (hguarded : policy.Guarded fromStr toolName input context) (prompter : Option P) :
    RunsOnlyApproved decide fromStr policy toolName input context prompter := by
  unfold RunsOnlyApproved
  intro hallow
  by_cases hdenied : Denies fromStr policy toolName input
  · obtain ⟨reason, hauthorize⟩ := authorizeWithContext_denied decide fromStr
      ((findMatchingRule_isSome fromStr).mpr hdenied) context prompter
    rw [hauthorize] at hallow
    cases hallow
  · have hdeny : findMatchingRule fromStr policy.denyRules toolName input = none := by
      rw [← Option.not_isSome_iff_eq_none, findMatchingRule_isSome]
      exact hdenied
    unfold authorizeWithContext at hallow ⊢
    simp only [hdeny, hrules, hmode] at hallow ⊢
    cases hask : findMatchingRule fromStr policy.askRules toolName input with
    | some rule =>
      rw [hask] at hallow
      cases hoverride : context.overrideDecision with
      | none =>
        rw [hoverride] at hallow
        exact promptOrDeny_approved hallow
      | some override =>
        rw [hoverride] at hallow
        cases override with
        | allow => exact promptOrDeny_approved hallow
        | deny => cases hallow
        | ask => exact promptOrDeny_approved hallow
    | none =>
      rw [hask] at hallow
      have hasks : ¬ policy.Asks fromStr toolName input := by
        unfold Asks
        rw [← findMatchingRule_isSome, hask]
        exact Bool.false_ne_true
      -- Only the tool's requirement is left to guard the call.
      have hstandard : context.overrideDecision ≠ some .deny →
          context.overrideDecision ≠ some .ask → ¬ policy.requiredModeFor toolName ≤ .prompt := by
        intro hnotDeny hnotAsk hle
        rcases hguarded with h | h | h | h | h
        · exact hdenied h
        · exact hnotDeny h
        · exact hnotAsk h
        · exact hasks h
        · exact required_le_prompt_iff.mp hle h
      cases hoverride : context.overrideDecision with
      | none =>
        rw [hoverride] at hallow hstandard
        simp only [hstandard nofun nofun] at hallow ⊢
        exact promptOrDeny_approved hallow
      | some override =>
        rw [hoverride] at hallow hstandard
        cases override with
        | allow =>
          simp only [hstandard nofun nofun] at hallow ⊢
          exact promptOrDeny_approved hallow
        | deny => cases hallow
        | ask => exact promptOrDeny_approved hallow

theorem authorizeWithContext_unguarded (hmode : policy.activeMode = .prompt)
    (hrules : findMatchingRule fromStr policy.allowRules toolName input = none)
    (hunguarded : ¬ policy.Guarded fromStr toolName input context) (prompter : Option P) :
    policy.authorizeWithContext decide fromStr toolName input context prompter =
      .unasked .allow prompter := by
  simp only [Guarded, not_or] at hunguarded
  obtain ⟨hdenied, hnotDeny, hnotAsk, hasks, hrequired⟩ := hunguarded
  have hdeny : findMatchingRule fromStr policy.denyRules toolName input = none := by
    rw [← Option.not_isSome_iff_eq_none, findMatchingRule_isSome]
    exact hdenied
  have hask : findMatchingRule fromStr policy.askRules toolName input = none := by
    rw [← Option.not_isSome_iff_eq_none, findMatchingRule_isSome]
    exact hasks
  have hle : policy.requiredModeFor toolName ≤ .prompt := required_le_prompt_iff.mpr hrequired
  unfold authorizeWithContext
  simp only [hdeny, hrules, hask, hmode, hle]
  cases hoverride : context.overrideDecision with
  | none => rfl
  | some override =>
    cases override with
    | allow => rfl
    | deny => exact absurd hoverride hnotDeny
    | ask => exact absurd hoverride hnotAsk

end PromptMode

/-- In the mode `prompt`, a call that no allow rule matches runs only with the
prompter's approval, if and only if a rule or the hook guards it or its tool
requires the mode `allow`. -/
theorem prompt_mode_runs_only_approved_iff {P : Type}
    (decide : P → PermissionRequest → PermissionPromptDecision × P)
    (fromStr : String → Option Value) (policy : PermissionPolicy) (toolName input : String)
    (context : PermissionContext) (prompter : Option P) (hmode : policy.activeMode = .prompt)
    (hrules : ¬ ∃ rule ∈ policy.allowRules, rule.isMatch fromStr toolName input = true) :
    RunsOnlyApproved decide fromStr policy toolName input context prompter ↔
      policy.Guarded fromStr toolName input context := by
  have hallow : findMatchingRule fromStr policy.allowRules toolName input = none := by
    rw [← Option.not_isSome_iff_eq_none, findMatchingRule_isSome]
    exact hrules
  constructor
  · intro happroved
    by_contra hunguarded
    have hrun : policy.authorizeWithContext decide fromStr toolName input context prompter =
        .unasked .allow prompter :=
      authorizeWithContext_unguarded hmode hallow hunguarded prompter
    unfold RunsOnlyApproved at happroved
    rw [hrun] at happroved
    obtain ⟨_, _, _, hasked, _⟩ := happroved rfl
    cases hasked
  · intro hguarded
    exact authorizeWithContext_guarded hmode hallow hguarded prompter

def refuseAll (_ : Unit) (_ : PermissionRequest) : PermissionPromptDecision × Unit :=
  (.deny "not approved", ())

/-- A tool that requires `allow` is put to the prompter. -/
theorem prompt_mode_runs_only_approved_sudo :
    RunsOnlyApproved refuseAll (fun _ => none)
        ((new .prompt).withToolRequirement "sudo" .allow) "sudo" "" .empty (some ()) ↔
      ((new .prompt).withToolRequirement "sudo" .allow).Guarded (fun _ => none) "sudo" ""
        .empty :=
  prompt_mode_runs_only_approved_iff refuseAll (fun _ => none)
    ((new .prompt).withToolRequirement "sudo" .allow) "sudo" "" .empty (some ()) rfl nofun

/-- A policy without rules runs `bash` in the mode `prompt`, and the prompter that
would refuse is not asked. -/
theorem prompt_mode_runs_unapproved :
    ¬ RunsOnlyApproved refuseAll (fun _ => none) (new .prompt) "bash"
      "\x7b\"command\":\"rm -rf /\"\x7d" .empty (some ()) := by
  intro happroved
  obtain ⟨_, _, _, hasked, _⟩ := happroved rfl
  cases hasked

end PermissionPolicy

end DbClinic.Runtime
