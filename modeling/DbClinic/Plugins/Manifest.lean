import DbClinic.Lib.FileTree
import DbClinic.Runtime.Json
import DbClinic.Runtime.Text

/-!
Plugin manifests and the records of installed plugins. A manifest is loaded
from the directory of the plugin and refused with all that is wrong with it at
once; the paths of its commands are looked up in the file tree. Of an accepted
manifest only the name, the version, the description and the default state are
used here.
-/

namespace DbClinic.Plugins

open DbClinic.Runtime

inductive PluginKind where
  | builtin
  | bundled
  | external
  deriving DecidableEq

def PluginKind.marketplace : PluginKind → String
  | builtin => "builtin"
  | bundled => "bundled"
  | external => "external"

structure PluginHooks where
  preToolUse : List String := []
  postToolUse : List String := []
  postToolUseFailure : List String := []
  deriving DecidableEq

structure PluginLifecycle where
  init : List String := []
  shutdown : List String := []
  deriving DecidableEq

structure RawPluginToolManifest where
  name : String
  description : String
  inputSchema : Serde.Value
  command : String
  requiredPermission : String

structure PluginCommandManifest where
  name : String
  description : String
  command : String
  deriving DecidableEq

structure RawPluginManifest where
  name : String
  version : String
  description : String
  permissions : List String := []
  defaultEnabled : Bool := false
  hooks : PluginHooks := {}
  lifecycle : PluginLifecycle := {}
  tools : List RawPluginToolManifest := []
  commands : List PluginCommandManifest := []

structure PluginManifest where
  name : String
  version : String
  description : String
  defaultEnabled : Bool
  deriving DecidableEq

inductive ManifestError where
  | emptyField (field : String)
  | emptyEntryField (kind field : String) (name : Option String)
  | invalidPermission (permission : String)
  | duplicatePermission (permission : String)
  | duplicateEntry (kind name : String)
  | missingPath (kind : String) (path : Path)
  | pathIsDirectory (kind : String) (path : Path)
  | invalidToolInputSchema (toolName : String)
  | invalidToolRequiredPermission (toolName permission : String)
  | unsupportedManifestContract (detail : String)
  deriving DecidableEq

/-- What an I/O error was: one the tree refused, one of the device, or a text
that is no UTF-8. -/
inductive IoFailure where
  | refused (error : IoError)
  | device
  | nameTooLong
  | invalidData
  deriving DecidableEq

inductive PluginError where
  | io (error : IoFailure)
  | json (error : String)
  | manifestValidation (errors : List ManifestError)
  | loadFailures (roots : List Path)
  | invalidManifest (message : String)
  | notFound (message : String)
  | commandFailed (message : String)
  deriving DecidableEq

def trimText (text : String) : String := String.ofList (trim text.toList)

/-- `value.trim().is_empty()`. -/
def isBlank (text : String) : Bool := trim text.toList = []

def validateRequiredManifestField (field value : String) : List ManifestError :=
  if isBlank value then [.emptyField field] else []

/-- The loop of `build_manifest_permissions`. -/
def permissionErrors : (seen : List String) → List String → List ManifestError
  | _, [] => []
  | seen, permission :: rest =>
    let permission := trimText permission
    if permission = "" then .emptyEntryField "permission" "value" none :: permissionErrors seen rest
    else if permission ∈ seen then .duplicatePermission permission :: permissionErrors seen rest
    else
      (if permission ∈ ["read", "write", "execute"] then []
        else [.invalidPermission permission]) ++ permissionErrors (permission :: seen) rest

def isLiteralCommand (entry : String) : Bool :=
  !("./".toList.isPrefixOf entry.toList || "../".toList.isPrefixOf entry.toList ||
    "/".toList.isPrefixOf entry.toList)

section Tree

variable {α : Type} (tree : FileTree α) (root : Path)

def validateCommandEntry (kind entry : String) : List ManifestError :=
  if isBlank entry then [.emptyEntryField kind "command" none]
  else if isLiteralCommand entry then []
  else
    let path := root.join entry
    match tree.get path with
    | none => [.missingPath kind path]
    | some .dir => [.pathIsDirectory kind path]
    | some (.file _) => []

def entryErrors (kind name description command : String) : List ManifestError :=
  (if isBlank description then [.emptyEntryField kind "description" (some name)] else []) ++
    if isBlank command then [.emptyEntryField kind "command" (some name)]
    else validateCommandEntry tree root kind command

/-- The loop of `build_manifest_tools`. -/
def toolErrors : (seen : List String) → List RawPluginToolManifest → List ManifestError
  | _, [] => []
  | seen, tool :: rest =>
    let name := trimText tool.name
    if name = "" then .emptyEntryField "tool" "name" none :: toolErrors seen rest
    else if name ∈ seen then .duplicateEntry "tool" name :: toolErrors seen rest
    else
      entryErrors tree root "tool" name tool.description tool.command ++
        (match tool.inputSchema with
          | .object _ => []
          | _ => [.invalidToolInputSchema name]) ++
        (if trimText tool.requiredPermission ∈
            ["read-only", "workspace-write", "danger-full-access"] then []
          else [.invalidToolRequiredPermission name (trimText tool.requiredPermission)]) ++
        toolErrors (name :: seen) rest

/-- The loop of `build_manifest_commands`. -/
def commandErrors : (seen : List String) → List PluginCommandManifest → List ManifestError
  | _, [] => []
  | seen, command :: rest =>
    let name := trimText command.name
    if name = "" then .emptyEntryField "command" "name" none :: commandErrors seen rest
    else if name ∈ seen then .duplicateEntry "command" name :: commandErrors seen rest
    else
      entryErrors tree root "command" name command.description command.command ++
        commandErrors (name :: seen) rest

def buildPluginManifest (raw : RawPluginManifest) : Except PluginError PluginManifest :=
  let errors :=
    validateRequiredManifestField "name" raw.name ++
      validateRequiredManifestField "version" raw.version ++
      validateRequiredManifestField "description" raw.description ++
      permissionErrors [] raw.permissions ++
      raw.hooks.preToolUse.flatMap (validateCommandEntry tree root "hook") ++
      raw.hooks.postToolUse.flatMap (validateCommandEntry tree root "hook") ++
      raw.hooks.postToolUseFailure.flatMap (validateCommandEntry tree root "hook") ++
      raw.lifecycle.init.flatMap (validateCommandEntry tree root "lifecycle command") ++
      raw.lifecycle.shutdown.flatMap (validateCommandEntry tree root "lifecycle command") ++
      toolErrors tree root [] raw.tools ++
      commandErrors tree root [] raw.commands
  if errors ≠ [] then .error (.manifestValidation errors)
  else .ok ⟨raw.name, raw.version, raw.description, raw.defaultEnabled⟩

end Tree

/-- `detect_claude_code_manifest_contract_gaps`. -/
def manifestContractGaps (rawManifest : Serde.Value) : List ManifestError :=
  match rawManifest with
  | .object root =>
    let unsupported := fun (field detail : String) =>
      if (getEntry root field).isSome then
        [ManifestError.unsupportedManifestContract
          ("plugin manifest field \x60" ++ field ++ "\x60 uses the Claude Code plugin contract; " ++
            detail)]
      else []
    let globs := match getEntry root "commands" with
      | some (.array commands) => commands.any fun c => c.asStr.isSome
      | _ => false
    let hooks := match getEntry root "hooks" with
      | some (.object hooks) => hooks.map Prod.fst
      | _ => []
    unsupported "skills"
        "\x60claw\x60 does not load plugin-managed skills and instead discovers skills from local roots such as \x60.claw/skills\x60, \x60.omc/skills\x60, \x60.agents/skills\x60, \x60~/.omc/skills\x60, and \x60~/.claude/skills/omc-learned\x60." ++
      unsupported "mcpServers"
        "\x60claw\x60 does not import MCP servers from plugin manifests." ++
      unsupported "agents"
        "\x60claw\x60 does not load plugin-managed agent markdown catalogs from plugin manifests." ++
      (if globs then [.unsupportedManifestContract
          "plugin manifest field \x60commands\x60 uses Claude Code-style directory globs; \x60claw\x60 slash dispatch is still built-in and does not load plugin slash command markdown files."]
        else []) ++
      (hooks.filter fun hook => hook ∉ ["PreToolUse", "PostToolUse", "PostToolUseFailure"]).map
        fun hook => .unsupportedManifestContract
          ("plugin hook \x60" ++ hook ++ "\x60 uses the Claude Code lifecycle contract; \x60claw\x60 plugins currently support only PreToolUse, PostToolUse, and PostToolUseFailure.")
  | _ => []

inductive PluginInstallSource where
  | localPath (path : String)
  | gitUrl (url : String)
  deriving DecidableEq

structure InstalledPluginRecord where
  kind : PluginKind
  id : String
  name : String
  version : String
  description : String
  installPath : Path
  source : PluginInstallSource
  installedAtUnixMs : Nat
  updatedAtUnixMs : Nat
  deriving DecidableEq

/-- `InstalledPluginRegistry`, by its map of plugins. -/
abbrev InstalledPluginRegistry := List (String × InstalledPluginRecord)

def pluginId (name marketplace : String) : String := name ++ "@" ++ marketplace

def sanitizeChar (ch : Char) : Char :=
  if ch = '/' ∨ ch = '\\' ∨ ch = '@' ∨ ch = ':' then '-' else ch

def sanitizePluginId (pluginId : String) : String :=
  String.ofList (pluginId.toList.map sanitizeChar)

end DbClinic.Plugins
