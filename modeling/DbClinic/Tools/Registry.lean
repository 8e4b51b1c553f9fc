import DbClinic.Runtime.PermissionEnforcer
import DbClinic.Tools.Classify

/-!
The registry of tools and the dispatch of one call. What deserialises an input
and what a tool does with it are parameters. A call is refused with an error,
panics, or runs a tool.
-/

namespace DbClinic.Tools

open DbClinic.Runtime

structure ToolSpec where
  name : String
  requiredPermission : PermissionMode

def mvpToolSpecs : List ToolSpec :=
  [⟨"bash", .dangerFullAccess⟩, ⟨"read_file", .readOnly⟩, ⟨"write_file", .workspaceWrite⟩,
    ⟨"edit_file", .workspaceWrite⟩, ⟨"glob_search", .readOnly⟩, ⟨"grep_search", .readOnly⟩,
    ⟨"WebFetch", .readOnly⟩, ⟨"WebSearch", .readOnly⟩, ⟨"TodoWrite", .workspaceWrite⟩,
    ⟨"Skill", .readOnly⟩, ⟨"Agent", .dangerFullAccess⟩, ⟨"ToolSearch", .readOnly⟩,
    ⟨"NotebookEdit", .workspaceWrite⟩, ⟨"Sleep", .readOnly⟩, ⟨"SendUserMessage", .readOnly⟩,
    ⟨"Config", .workspaceWrite⟩, ⟨"EnterPlanMode", .workspaceWrite⟩,
    ⟨"ExitPlanMode", .workspaceWrite⟩, ⟨"StructuredOutput", .readOnly⟩,
    ⟨"REPL", .dangerFullAccess⟩, ⟨"PowerShell", .dangerFullAccess⟩, ⟨"AskUserQuestion", .readOnly⟩,
    ⟨"TaskCreate", .dangerFullAccess⟩, ⟨"RunTaskPacket", .dangerFullAccess⟩,
    ⟨"TaskGet", .readOnly⟩, ⟨"TaskList", .readOnly⟩, ⟨"TaskStop", .dangerFullAccess⟩,
    ⟨"TaskUpdate", .dangerFullAccess⟩, ⟨"TaskOutput", .readOnly⟩,
    ⟨"WorkerCreate", .dangerFullAccess⟩, ⟨"WorkerGet", .readOnly⟩, ⟨"WorkerObserve", .readOnly⟩,
    ⟨"WorkerResolveTrust", .dangerFullAccess⟩, ⟨"WorkerAwaitReady", .readOnly⟩,
    ⟨"WorkerSendPrompt", .dangerFullAccess⟩, ⟨"WorkerRestart", .dangerFullAccess⟩,
    ⟨"WorkerTerminate", .dangerFullAccess⟩, ⟨"WorkerObserveCompletion", .dangerFullAccess⟩,
    ⟨"TeamCreate", .dangerFullAccess⟩, ⟨"TeamDelete", .dangerFullAccess⟩,
    ⟨"CronCreate", .dangerFullAccess⟩, ⟨"CronDelete", .dangerFullAccess⟩, ⟨"CronList", .readOnly⟩,
    ⟨"LSP", .readOnly⟩, ⟨"ListMcpResources", .readOnly⟩, ⟨"ReadMcpResource", .readOnly⟩,
    ⟨"McpAuth", .dangerFullAccess⟩, ⟨"RemoteTrigger", .dangerFullAccess⟩,
    ⟨"MCP", .dangerFullAccess⟩, ⟨"TestingPermission", .dangerFullAccess⟩]

inductive PluginToolPermission where
  | readOnly
  | workspaceWrite
  | dangerFullAccess
  deriving DecidableEq

def PluginToolPermission.asStr : PluginToolPermission → String
  | readOnly => "read-only"
  | workspaceWrite => "workspace-write"
  | dangerFullAccess => "danger-full-access"

def permissionModeFromPlugin (value : String) : Except String PermissionMode :=
  match value with
  | "read-only" => .ok .readOnly
  | "workspace-write" => .ok .workspaceWrite
  | "danger-full-access" => .ok .dangerFullAccess
  | other => .error ("unsupported plugin permission: " ++ other)

structure PluginTool where
  name : String
  command : String
  args : List String
  requiredPermission : PluginToolPermission

structure RuntimeToolDefinition where
  name : String
  requiredPermission : PermissionMode

structure GlobalToolRegistry where
  pluginTools : List PluginTool
  runtimeTools : List RuntimeToolDefinition
  enforcer : Option PermissionEnforcer

/-! The inputs of the tools whose permission is classified, as far as the
dispatch reads them; `Rest` is what it passes on. -/

structure CommandInput (Rest : Type) where
  command : String
  rest : Rest

structure PathInput (Rest : Type) where
  path : String
  rest : Rest

structure SearchInput (Rest : Type) where
  pattern : String
  path : Option String
  rest : Rest

/-- How a tool reads its input, and what it then does. -/
structure ToolBody (J I : Type) where
  fromValue : J → Except String I
  run : I → Except String String

/-- The tools behind the dispatch, for a type `J` of input values. -/
structure ToolRuntime (J : Type) where
  Rest : Type
  toText : J → String
  bash : ToolBody J (CommandInput Rest)
  powershell : ToolBody J (CommandInput Rest)
  readFile : ToolBody J (PathInput Rest)
  writeFile : ToolBody J (PathInput Rest)
  editFile : ToolBody J (PathInput Rest)
  globSearch : ToolBody J (SearchInput Rest)
  grepSearch : ToolBody J (SearchInput Rest)
  other : String → ToolBody J Rest
  raw : String → J → Except String String
  plugin : PluginTool → J → Except String String

inductive Execution where
  | refused (error : String)
  | panicked
  | ran (tool : String) (result : Except String String)

def maybeEnforcePermissionCheckWithMode (enforcer : Option PermissionEnforcer)
    (toolName input : String) (requiredMode : PermissionMode) : Except String Unit :=
  match enforcer with
  | none => .ok ()
  | some enforcer =>
    match enforcer.checkWithRequiredMode toolName input requiredMode with
    | .allowed => .ok ()
    | .denied _ _ _ reason => .error reason

/-- The arms that read their input and run, in the order of the source. -/
def parsedArms : List String :=
  ["WebFetch", "WebSearch", "TodoWrite", "Skill", "Agent", "ToolSearch", "NotebookEdit", "Sleep",
    "SendUserMessage", "Brief", "Config", "EnterPlanMode", "ExitPlanMode", "StructuredOutput",
    "REPL", "AskUserQuestion", "TaskCreate", "RunTaskPacket", "TaskGet", "TaskStop", "TaskUpdate",
    "TaskOutput", "WorkerCreate", "WorkerGet", "WorkerObserve", "WorkerResolveTrust",
    "WorkerAwaitReady", "WorkerSendPrompt", "WorkerRestart", "WorkerTerminate",
    "WorkerObserveCompletion", "TeamCreate", "TeamDelete", "CronCreate", "CronDelete", "LSP",
    "ListMcpResources", "ReadMcpResource", "McpAuth", "RemoteTrigger", "MCP", "TestingPermission"]

def rawArms : List String := ["TaskList", "CronList"]

section Dispatch

variable {J : Type} (tools : ToolRuntime J) (process : Process)

def checkedArm {I : Type} (body : ToolBody J I) (classify : I → Option PermissionMode)
    (enforcer : Option PermissionEnforcer) (name : String) (input : J) : Execution :=
  match body.fromValue input with
  | .error error => .refused error
  | .ok parsed =>
    match classify parsed with
    | none => .panicked
    | some requiredMode =>
      match maybeEnforcePermissionCheckWithMode enforcer name (tools.toText input)
        requiredMode with
      | .error error => .refused error
      | .ok _ => .ran name (body.run parsed)

def parsedArm (name : String) (input : J) : Execution :=
  match (tools.other name).fromValue input with
  | .error error => .refused error
  | .ok parsed => .ran name ((tools.other name).run parsed)

def executeToolWithEnforcer (enforcer : Option PermissionEnforcer) (name : String) (input : J) :
    Execution :=
  match name with
  | "bash" =>
    checkedArm tools tools.bash (fun i => some (classifyBashPermission process i.command))
      enforcer name input
  | "read_file" =>
    checkedArm tools tools.readFile
      (fun i => some (classifyFilePathPermission process i.path false)) enforcer name input
  | "write_file" =>
    checkedArm tools tools.writeFile
      (fun i => some (classifyFilePathPermission process i.path true)) enforcer name input
  | "edit_file" =>
    checkedArm tools tools.editFile
      (fun i => some (classifyFilePathPermission process i.path false)) enforcer name input
  | "glob_search" =>
    checkedArm tools tools.globSearch
      (fun i => some (classifyGlobPermission process i.path i.pattern)) enforcer name input
  | "grep_search" =>
    checkedArm tools tools.grepSearch (fun i => some (classifyGrepPermission process i.path))
      enforcer name input
  | "PowerShell" =>
    checkedArm tools tools.powershell (fun i => classifyPowershellPermission process i.command)
      enforcer name input
  | _ =>
    if name ∈ rawArms then .ran name (tools.raw name input)
    else if name ∈ parsedArms then parsedArm tools name input
    else .refused ("unsupported tool: " ++ name)

def GlobalToolRegistry.execute (registry : GlobalToolRegistry) (name : String) (input : J) :
    Execution :=
  if mvpToolSpecs.any fun spec => spec.name = name then
    executeToolWithEnforcer tools process registry.enforcer name input
  else
    match registry.pluginTools.find? fun tool => tool.name = name with
    | none => .refused ("unsupported tool: " ++ name)
    | some tool => .ran name (tools.plugin tool input)

end Dispatch

end DbClinic.Tools
