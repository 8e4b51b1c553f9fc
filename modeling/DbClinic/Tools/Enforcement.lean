import DbClinic.Tools.Registry

/-!
Which calls of the registry the enforcer stands in front of. Seven arms classify
their input and compare the mode with the active one; no rule is looked at. The
other arms, and the tools of plugins, run without a check.
-/

namespace DbClinic.Tools

open DbClinic.Runtime

section Enforcement

variable {J : Type} (tools : ToolRuntime J) (process : Process)
  (fromStr : String → Option Value)

/-- The mode that the input of a shell or file tool is classified to, behind the
deserialisation and the panic; `none` for the tools without a classifier. -/
def classifiedMode (name : String) (input : J) : Option (Except String (Option PermissionMode)) :=
  match name with
  | "bash" =>
    some ((tools.bash.fromValue input).map fun i =>
      some (classifyBashPermission process i.command))
  | "read_file" =>
    some ((tools.readFile.fromValue input).map fun i =>
      some (classifyFilePathPermission process i.path false))
  | "write_file" =>
    some ((tools.writeFile.fromValue input).map fun i =>
      some (classifyFilePathPermission process i.path true))
  | "edit_file" =>
    some ((tools.editFile.fromValue input).map fun i =>
      some (classifyFilePathPermission process i.path false))
  | "glob_search" =>
    some ((tools.globSearch.fromValue input).map fun i =>
      some (classifyGlobPermission process i.path i.pattern))
  | "grep_search" =>
    some ((tools.grepSearch.fromValue input).map fun i =>
      some (classifyGrepPermission process i.path))
  | "PowerShell" =>
    some ((tools.powershell.fromValue input).map fun i =>
      classifyPowershellPermission process i.command)
  | _ => none

def declaredMode (registry : GlobalToolRegistry) (name : String) : Option PermissionMode :=
  match mvpToolSpecs.find? fun spec => spec.name = name with
  | some spec => some spec.requiredPermission
  | none =>
    (registry.pluginTools.find? fun tool => tool.name = name).bind fun tool =>
      (permissionModeFromPlugin tool.requiredPermission.asStr).toOption

/-- The mode that a call requires; `none` if there is no such call. -/
def requiredMode (registry : GlobalToolRegistry) (name : String) (input : J) :
    Option PermissionMode :=
  match classifiedMode tools process name input with
  | some (.ok mode) => mode
  | some (.error _) => none
  | none => declaredMode registry name

/-- The call requires no more than the active mode, and no deny rule matches. -/
def Permitted (enforcer : PermissionEnforcer) (name text : String)
    (required : Option PermissionMode) : Prop :=
  ∃ mode, required = some mode ∧ mode ≤ enforcer.policy.activeMode ∧
    ¬ Denies fromStr enforcer.policy name text

/-- A tool is run only if it is permitted; any other call is an error. -/
def Guarded (registry : GlobalToolRegistry) (enforcer : PermissionEnforcer) (name : String)
    (input : J) : Prop :=
  match registry.execute tools process name input with
  | .refused _ => True
  | .panicked => False
  | .ran _ _ =>
    Permitted fromStr enforcer name (tools.toText input)
      (requiredMode tools process registry name input)

/-- The call reaches a tool without a check. -/
def Unchecked (registry : GlobalToolRegistry) (name : String) (input : J) : Prop :=
  if mvpToolSpecs.any fun spec => spec.name = name then
    name ∈ rawArms ∨ ∃ parsed, (tools.other name).fromValue input = .ok parsed
  else ∃ tool ∈ registry.pluginTools, tool.name = name

def CheckNotMissed (registry : GlobalToolRegistry) (enforcer : PermissionEnforcer) (name : String)
    (input : J) : Prop :=
  match classifiedMode tools process name input with
  | some (.error _) => True
  | some (.ok none) => False
  | some (.ok (some mode)) =>
    mode ≤ enforcer.policy.activeMode →
      ¬ Denies fromStr enforcer.policy name (tools.toText input)
  | none =>
    Unchecked tools registry name input →
      Permitted fromStr enforcer name (tools.toText input) (declaredMode registry name)

end Enforcement

theorem maybeEnforce_ok_iff {enforcer : PermissionEnforcer} (name text : String)
    (mode : PermissionMode) (hmode : enforcer.policy.activeMode ≠ .prompt) :
    maybeEnforcePermissionCheckWithMode (some enforcer) name text mode = .ok () ↔
      mode ≤ enforcer.policy.activeMode := by
  have hdenied := PermissionEnforcer.checkWithRequiredMode_isDenied enforcer name text mode
  unfold maybeEnforcePermissionCheckWithMode
  dsimp only
  cases hcheck : enforcer.checkWithRequiredMode name text mode with
  | allowed =>
    rw [hcheck] at hdenied
    refine iff_of_true rfl ?_
    by_contra hexceeds
    exact hdenied.mpr ⟨hmode, hexceeds⟩
  | denied tool activeMode requiredMode reason =>
    rw [hcheck] at hdenied
    refine iff_of_false (fun h => ?_) (hdenied.mp trivial).2
    cases h

section Execute

variable {J : Type} {tools : ToolRuntime J} {process : Process}
  {fromStr : String → Option Value}

/-- What an arm with a classifier does, by the outcome of the classifier. -/
def CheckedOutcome (enforcer : Option PermissionEnforcer) (name text : String)
    (classified : Except String (Option PermissionMode)) (execution : Execution) : Prop :=
  match classified with
  | .error error => execution = .refused error
  | .ok none => execution = .panicked
  | .ok (some mode) =>
    match maybeEnforcePermissionCheckWithMode enforcer name text mode with
    | .error error => execution = .refused error
    | .ok _ => ∃ result, execution = .ran name result

theorem checkedArm_outcome {I : Type} (body : ToolBody J I) (classify : I → Option PermissionMode)
    (enforcer : Option PermissionEnforcer) (name : String) (input : J) :
    CheckedOutcome enforcer name (tools.toText input) ((body.fromValue input).map classify)
      (checkedArm tools body classify enforcer name input) := by
  unfold checkedArm
  cases body.fromValue input with
  | error error => rfl
  | ok parsed =>
    change CheckedOutcome enforcer name (tools.toText input) (.ok (classify parsed)) _
    dsimp only
    cases classify parsed with
    | none => rfl
    | some mode =>
      unfold CheckedOutcome
      dsimp only
      cases maybeEnforcePermissionCheckWithMode enforcer name (tools.toText input) mode with
      | error error => rfl
      | ok u => exact ⟨_, rfl⟩

variable {name : String} {input : J} {classified : Except String (Option PermissionMode)}

theorem execute_classified {enforcer : Option PermissionEnforcer}
    (h : classifiedMode tools process name input = some classified) :
    CheckedOutcome enforcer name (tools.toText input) classified
      (executeToolWithEnforcer tools process enforcer name input) := by
  unfold classifiedMode at h
  split at h
  iterate 7
    · cases h
      exact checkedArm_outcome ..
  · cases h

theorem execute_unclassified {enforcer : Option PermissionEnforcer}
    (h : classifiedMode tools process name input = none) :
    executeToolWithEnforcer tools process enforcer name input =
      if name ∈ rawArms then .ran name (tools.raw name input)
      else if name ∈ parsedArms then parsedArm tools name input
      else .refused ("unsupported tool: " ++ name) := by
  unfold classifiedMode at h
  split at h
  iterate 7 (· cases h)
  · unfold executeToolWithEnforcer
    split
    iterate 7 (· contradiction)
    · rfl

theorem spec_of_classified (h : classifiedMode tools process name input = some classified) :
    (mvpToolSpecs.any fun spec => spec.name = name) = true := by
  unfold classifiedMode at h
  split at h
  iterate 7 (· decide)
  · cases h

theorem spec_dispatched : ∀ spec ∈ mvpToolSpecs,
    spec.name ∈ rawArms ∨ spec.name ∈ parsedArms ∨ spec.name ∈ ["bash", "read_file", "write_file",
      "edit_file", "glob_search", "grep_search", "PowerShell"] := by
  decide +kernel

theorem classified_of_mem (input : J)
    (h : name ∈ ["bash", "read_file", "write_file", "edit_file", "glob_search", "grep_search",
      "PowerShell"]) :
    ∃ classified, classifiedMode tools process name input = some classified := by
  simp only [List.mem_cons, List.not_mem_nil, or_false] at h
  rcases h with rfl | rfl | rfl | rfl | rfl | rfl | rfl
  all_goals exact ⟨_, rfl⟩

theorem arm_of_spec (hspec : (mvpToolSpecs.any fun spec => spec.name = name) = true)
    (hnone : classifiedMode tools process name input = none) :
    name ∈ rawArms ∨ name ∈ parsedArms := by
  obtain ⟨spec, hmem, hname⟩ := List.any_eq_true.mp hspec
  obtain rfl : spec.name = name := by simpa using hname
  rcases spec_dispatched spec hmem with hraw | hparse | hchecked
  · exact Or.inl hraw
  · exact Or.inr hparse
  · obtain ⟨classified, hsome⟩ := @classified_of_mem J tools process spec.name input hchecked
    rw [hnone] at hsome
    cases hsome

variable {registry : GlobalToolRegistry} {enforcer : PermissionEnforcer}

theorem guarded_classified_iff (henforcer : registry.enforcer = some enforcer)
    (hmode : enforcer.policy.activeMode ≠ .prompt)
    (h : classifiedMode tools process name input = some classified) :
    Guarded tools process fromStr registry enforcer name input ↔
      CheckNotMissed tools process fromStr registry enforcer name input := by
  have hexecute : registry.execute tools process name input =
      executeToolWithEnforcer tools process (some enforcer) name input := by
    unfold GlobalToolRegistry.execute
    rw [if_pos (spec_of_classified h), henforcer]
  have houtcome := @execute_classified J tools process name input classified (some enforcer) h
  unfold Guarded CheckNotMissed requiredMode
  rw [hexecute, h]
  cases classified with
  | error error =>
    have hrefused : executeToolWithEnforcer tools process (some enforcer) name input =
      .refused error := houtcome
    rw [hrefused]
  | ok mode =>
    cases mode with
    | none =>
      have hpanicked : executeToolWithEnforcer tools process (some enforcer) name input =
        .panicked := houtcome
      rw [hpanicked]
    | some mode =>
      have hok := maybeEnforce_ok_iff name (tools.toText input) mode hmode
      unfold CheckedOutcome at houtcome
      dsimp only at houtcome ⊢
      cases hcheck : maybeEnforcePermissionCheckWithMode (some enforcer) name
          (tools.toText input) mode with
      | error error =>
        rw [hcheck] at houtcome hok
        dsimp only at houtcome
        rw [houtcome]
        refine iff_of_true trivial fun hle => ?_
        cases hok.mpr hle
      | ok u =>
        rw [hcheck] at houtcome hok
        obtain ⟨result, hran⟩ := houtcome
        have hle := hok.mp rfl
        rw [hran]
        constructor
        · rintro ⟨mode', hmode', -, hdenies⟩ _
          exact hdenies
        · intro hdenies
          exact ⟨mode, rfl, hle, hdenies hle⟩

theorem guarded_unclassified_iff (h : classifiedMode tools process name input = none) :
    Guarded tools process fromStr registry enforcer name input ↔
      CheckNotMissed tools process fromStr registry enforcer name input := by
  unfold Guarded CheckNotMissed requiredMode Unchecked GlobalToolRegistry.execute
  rw [h]
  by_cases hspec : (mvpToolSpecs.any fun spec => spec.name = name) = true
  · simp only [hspec, if_true]
    rw [execute_unclassified h]
    by_cases hraw : name ∈ rawArms
    · simp only [if_pos hraw]
      exact ⟨fun hpermitted _ => hpermitted, fun hpermitted => hpermitted (Or.inl hraw)⟩
    · have hparse : name ∈ parsedArms := (arm_of_spec hspec h).resolve_left hraw
      simp only [if_neg hraw, if_pos hparse]
      unfold parsedArm
      cases hval : (tools.other name).fromValue input with
      | error error =>
        refine iff_of_true trivial ?_
        rintro (hraw' | ⟨parsed, hok⟩)
        · exact absurd hraw' hraw
        · cases hok
      | ok parsed =>
        exact ⟨fun hpermitted _ => hpermitted, fun hpermitted => hpermitted (Or.inr ⟨parsed, rfl⟩)⟩
  · simp only [hspec]
    cases hfind : registry.pluginTools.find? fun tool => tool.name = name with
    | none =>
      refine iff_of_true trivial ?_
      rintro ⟨tool, hmem, hname⟩
      have hmiss := List.find?_eq_none.mp hfind tool hmem
      simp [hname] at hmiss
    | some tool =>
      have hmem := List.mem_of_find?_eq_some hfind
      have hname : tool.name = name := by simpa using List.find?_some hfind
      exact ⟨fun hpermitted _ => hpermitted, fun hpermitted => hpermitted ⟨tool, hmem, hname⟩⟩

/-- A registry with an enforcer outside the mode `prompt` guards a call exactly
if no check is missed on it: no deny rule matches a call that is classified
within the active mode, no position of a PowerShell path is off a character, and
a call that is not classified is one that a check would let through. -/
theorem guarded_iff (tools : ToolRuntime J) (process : Process) (fromStr : String → Option Value)
    (registry : GlobalToolRegistry) (enforcer : PermissionEnforcer)
    (henforcer : registry.enforcer = some enforcer)
    (hmode : enforcer.policy.activeMode ≠ .prompt) (name : String) (input : J) :
    Guarded tools process fromStr registry enforcer name input ↔
      CheckNotMissed tools process fromStr registry enforcer name input := by
  cases hclassified : classifiedMode tools process name input with
  | none => exact guarded_unclassified_iff hclassified
  | some classified => exact guarded_classified_iff henforcer hmode hclassified

end Execute

def echoTools : ToolRuntime String where
  Rest := String
  toText := id
  bash := ⟨fun text => .ok ⟨text, ""⟩, fun i => .ok i.command⟩
  powershell := ⟨fun text => .ok ⟨text, ""⟩, fun i => .ok i.command⟩
  readFile := ⟨fun text => .ok ⟨text, ""⟩, fun i => .ok i.path⟩
  writeFile := ⟨fun text => .ok ⟨text, ""⟩, fun i => .ok i.path⟩
  editFile := ⟨fun text => .ok ⟨text, ""⟩, fun i => .ok i.path⟩
  globSearch := ⟨fun text => .ok ⟨text, none, ""⟩, fun i => .ok i.pattern⟩
  grepSearch := ⟨fun text => .ok ⟨text, none, ""⟩, fun i => .ok i.pattern⟩
  other := fun _ => ⟨.ok, .ok⟩
  raw := fun _ text => .ok text
  plugin := fun _ text => .ok text

def emptyProcess : Process := ⟨fun _ => none, none, [], id⟩

def readOnlyRegistry : GlobalToolRegistry := ⟨[], [], some ⟨.new .readOnly⟩⟩

theorem guarded_iff_repl :
    Guarded echoTools emptyProcess (fun _ => none) readOnlyRegistry ⟨.new .readOnly⟩ "REPL" "1" ↔
      CheckNotMissed echoTools emptyProcess (fun _ => none) readOnlyRegistry ⟨.new .readOnly⟩
        "REPL" "1" :=
  guarded_iff echoTools emptyProcess (fun _ => none) readOnlyRegistry ⟨.new .readOnly⟩ rfl
    (by decide) "REPL" "1"

/-- The `REPL` runs code in the mode `read-only`. -/
theorem repl_runs_read_only :
    readOnlyRegistry.enforcer = some ⟨.new .readOnly⟩ ∧
      (PermissionPolicy.new .readOnly).activeMode ≠ .prompt ∧
      ¬ Guarded echoTools emptyProcess (fun _ => none) readOnlyRegistry ⟨.new .readOnly⟩
        "REPL" "1" := by
  refine ⟨rfl, by decide, ?_⟩
  rintro ⟨mode, hmode, hle, -⟩
  have hrequired : requiredMode echoTools emptyProcess readOnlyRegistry "REPL" "1" =
      some .dangerFullAccess := by decide +kernel
  rw [hrequired] at hmode
  cases hmode
  revert hle
  decide

end DbClinic.Tools
