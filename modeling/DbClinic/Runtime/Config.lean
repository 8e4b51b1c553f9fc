import DbClinic.Lib.FileTree
import DbClinic.Runtime.ConfigValidate
import DbClinic.Runtime.Permissions

/-!
The configuration loader. Five files are read in the order of `discover`, each
one is checked, its objects are merged into what the files before it gave, and
the settings are read from the merged object at the end. Only the MCP servers
are collected file by file.
-/

namespace DbClinic.Runtime.Config

inductive ConfigError where
  | io (message : String)
  | parse (message : String)
  deriving DecidableEq

inductive ConfigSource where
  | user
  | project
  | local
  deriving DecidableEq

inductive ResolvedPermissionMode where
  | readOnly
  | workspaceWrite
  | dangerFullAccess
  deriving DecidableEq

structure ConfigEntry where
  source : ConfigSource
  path : PathBuf
  deriving DecidableEq

structure RuntimePluginConfig where
  enabledPlugins : List (String × Bool) := []
  externalDirectories : List String := []
  installRoot : Option String := none
  registryPath : Option String := none
  bundledRoot : Option String := none
  maxOutputTokens : Option (Fin (2 ^ 32)) := none
  deriving DecidableEq

structure ProviderFallbackConfig where
  primary : Option String := none
  fallbacks : List String := []
  deriving DecidableEq

structure RuntimeHookConfig where
  preToolUse : List String := []
  postToolUse : List String := []
  postToolUseFailure : List String := []
  deriving DecidableEq

inductive FilesystemIsolationMode where
  | off
  | workspaceOnly
  | allowList
  deriving DecidableEq

structure SandboxConfig where
  enabled : Option Bool := none
  namespaceRestrictions : Option Bool := none
  networkIsolation : Option Bool := none
  filesystemMode : Option FilesystemIsolationMode := none
  allowedMounts : List String := []
  deriving DecidableEq

structure OAuthConfig where
  clientId : String
  authorizeUrl : String
  tokenUrl : String
  callbackPort : Option (Fin (2 ^ 16))
  manualRedirectUrl : Option String
  scopes : List String
  deriving DecidableEq

structure McpStdioServerConfig where
  command : String
  args : List String
  env : List (String × String)
  toolCallTimeoutMs : Option (Fin (2 ^ 64))
  deriving DecidableEq

structure McpOAuthConfig where
  clientId : Option String
  callbackPort : Option (Fin (2 ^ 16))
  authServerMetadataUrl : Option String
  xaa : Option Bool
  deriving DecidableEq

structure McpRemoteServerConfig where
  url : String
  headers : List (String × String)
  headersHelper : Option String
  oauth : Option McpOAuthConfig
  deriving DecidableEq

structure McpWebSocketServerConfig where
  url : String
  headers : List (String × String)
  headersHelper : Option String
  deriving DecidableEq

structure McpSdkServerConfig where
  name : String
  deriving DecidableEq

structure McpManagedProxyServerConfig where
  url : String
  id : String
  deriving DecidableEq

inductive McpServerConfig where
  | stdio (config : McpStdioServerConfig)
  | sse (config : McpRemoteServerConfig)
  | http (config : McpRemoteServerConfig)
  | ws (config : McpWebSocketServerConfig)
  | sdk (config : McpSdkServerConfig)
  | managedProxy (config : McpManagedProxyServerConfig)
  deriving DecidableEq

structure ScopedMcpServerConfig where
  scope : ConfigSource
  config : McpServerConfig
  deriving DecidableEq

structure RuntimeFeatureConfig where
  hooks : RuntimeHookConfig
  plugins : RuntimePluginConfig
  mcp : List (String × ScopedMcpServerConfig)
  oauth : Option OAuthConfig
  model : Option String
  aliases : List (String × String)
  permissionMode : Option ResolvedPermissionMode
  permissionRules : RuntimePermissionRuleConfig
  sandbox : SandboxConfig
  providerFallbacks : ProviderFallbackConfig
  trustedRoots : List String

structure RuntimeConfig where
  merged : List (String × JsonValue)
  loadedEntries : List ConfigEntry
  featureConfig : RuntimeFeatureConfig

abbrev JsonObject := List (String × JsonValue)

abbrev ConfigResult (α : Type) := Except ConfigError α

def parseError {α : Type} (message : String) : ConfigResult α := .error (.parse message)

def expectObject (value : JsonValue) (context : String) : ConfigResult JsonObject :=
  match value.asObject with
  | some object => .ok object
  | none => parseError (context ++ ": expected JSON object")

def expectString (object : JsonObject) (key context : String) : ConfigResult String :=
  match (getEntry object key).bind JsonValue.asStr with
  | some text => .ok text
  | none => parseError (context ++ ": missing string field " ++ key)

/-- A field that may be missing: its value, if there is one, goes through
`read`, and is refused with `complaint` where that gives nothing. -/
def optionalField {α : Type} (read : JsonValue → Option α) (complaint : String)
    (object : JsonObject) (key context : String) : ConfigResult (Option α) :=
  match getEntry object key with
  | none => .ok none
  | some value =>
    match read value with
    | some a => .ok (some a)
    | none => parseError (context ++ ": field " ++ key ++ " " ++ complaint)

def optionalString : JsonObject → (key context : String) → ConfigResult (Option String) :=
  optionalField JsonValue.asStr "must be a string"

def optionalBool : JsonObject → (key context : String) → ConfigResult (Option Bool) :=
  optionalField JsonValue.asBool "must be a boolean"

/-- An unsigned integer of `bits` bits. -/
def optionalUnsigned (bits : Nat) (complaint : String) (object : JsonObject)
    (key context : String) : ConfigResult (Option (Fin (2 ^ bits))) := do
  match ← optionalField JsonValue.asI64 complaint object key context with
  | none => .ok none
  | some number =>
    if h : 0 ≤ number ∧ number.toNat < 2 ^ bits then .ok (some ⟨number.toNat, h.2⟩)
    else parseError (context ++ ": field " ++ key ++ " is out of range")

def optionalU16 : JsonObject → (key context : String) → ConfigResult (Option (Fin (2 ^ 16))) :=
  optionalUnsigned 16 "must be an integer"

def optionalU32 : JsonObject → (key context : String) → ConfigResult (Option (Fin (2 ^ 32))) :=
  optionalUnsigned 32 "must be a non-negative integer"

def optionalU64 : JsonObject → (key context : String) → ConfigResult (Option (Fin (2 ^ 64))) :=
  optionalUnsigned 64 "must be a non-negative integer"

def parseBoolMap (value : JsonValue) (context : String) : ConfigResult (List (String × Bool)) := do
  let map ← expectObject value context
  let entries ← map.mapM fun e =>
    match e.2.asBool with
    | some enabled => .ok (e.1, enabled)
    | none => parseError (context ++ ": field " ++ e.1 ++ " must be a boolean")
  .ok (entriesOf entries)

def optionalStringArray (object : JsonObject) (key context : String) :
    ConfigResult (Option (List String)) := do
  match ← optionalField JsonValue.asArray "must be an array" object key context with
  | none => .ok none
  | some items =>
    let texts ← items.mapM fun item =>
      match item.asStr with
      | some text => .ok text
      | none => parseError (context ++ ": field " ++ key ++ " must contain only strings")
    .ok (some texts)

def optionalStringMap (object : JsonObject) (key context : String) :
    ConfigResult (Option (List (String × String))) := do
  match ← optionalField JsonValue.asObject "must be an object" object key context with
  | none => .ok none
  | some map =>
    let entries ← map.mapM fun e =>
      match e.2.asStr with
      | some text => .ok (e.1, text)
      | none => parseError (context ++ ": field " ++ key ++ " must contain only string values")
    .ok (some (entriesOf entries))

def parseOptionalModel (root : JsonObject) : Option String :=
  (getEntry root "model").bind JsonValue.asStr

def parseOptionalAliases (root : JsonObject) : ConfigResult (List (String × String)) := do
  let aliases ← optionalStringMap root "aliases" "merged settings"
  .ok (aliases.getD [])

def parseOptionalHooksConfigObject (object : JsonObject) (context : String) :
    ConfigResult RuntimeHookConfig := do
  match getEntry object "hooks" with
  | none => .ok {}
  | some hooksValue =>
    let hooks ← expectObject hooksValue context
    let preToolUse ← optionalStringArray hooks "PreToolUse" context
    let postToolUse ← optionalStringArray hooks "PostToolUse" context
    let postToolUseFailure ← optionalStringArray hooks "PostToolUseFailure" context
    .ok ⟨preToolUse.getD [], postToolUse.getD [], postToolUseFailure.getD []⟩

def parseOptionalHooksConfig (root : JsonObject) : ConfigResult RuntimeHookConfig :=
  parseOptionalHooksConfigObject root "merged settings.hooks"

def validateOptionalHooksConfig (root : JsonObject) (path : PathBuf) : ConfigResult Unit := do
  let _ ← parseOptionalHooksConfigObject root (path.display ++ ": hooks")
  .ok ()

def parseOptionalPermissionRules (root : JsonObject) :
    ConfigResult RuntimePermissionRuleConfig := do
  match (getEntry root "permissions").bind JsonValue.asObject with
  | none => .ok ⟨[], [], []⟩
  | some permissions =>
    let context := "merged settings.permissions"
    let allow ← optionalStringArray permissions "allow" context
    let deny ← optionalStringArray permissions "deny" context
    let ask ← optionalStringArray permissions "ask" context
    .ok ⟨allow.getD [], deny.getD [], ask.getD []⟩

/-- A table of enabled plugins, where the object has one. -/
def replaceBoolMap (current : List (String × Bool)) (object : JsonObject) (key context : String) :
    ConfigResult (List (String × Bool)) :=
  match getEntry object key with
  | none => .ok current
  | some value => parseBoolMap value context

/-- The current spelling of the table replaces the deprecated one. -/
def parseOptionalPluginConfig (root : JsonObject) : ConfigResult RuntimePluginConfig := do
  let enabledPlugins ←
    replaceBoolMap [] root "enabledPlugins" "merged settings.enabledPlugins"
  match getEntry root "plugins" with
  | none => .ok { enabledPlugins }
  | some pluginsValue =>
    let context := "merged settings.plugins"
    let plugins ← expectObject pluginsValue context
    let enabledPlugins ←
      replaceBoolMap enabledPlugins plugins "enabled" "merged settings.plugins.enabled"
    let externalDirectories ← optionalStringArray plugins "externalDirectories" context
    let installRoot ← optionalString plugins "installRoot" context
    let registryPath ← optionalString plugins "registryPath" context
    let bundledRoot ← optionalString plugins "bundledRoot" context
    let maxOutputTokens ← optionalU32 plugins "maxOutputTokens" context
    .ok ⟨enabledPlugins, externalDirectories.getD [], installRoot, registryPath, bundledRoot,
      maxOutputTokens⟩

def parsePermissionModeLabel (mode context : String) : ConfigResult ResolvedPermissionMode :=
  if mode ∈ ["default", "plan", "read-only"] then .ok .readOnly
  else if mode ∈ ["acceptEdits", "auto", "workspace-write"] then .ok .workspaceWrite
  else if mode ∈ ["dontAsk", "danger-full-access"] then .ok .dangerFullAccess
  else parseError (context ++ ": unsupported permission mode " ++ mode)

def parseOptionalPermissionMode (root : JsonObject) :
    ConfigResult (Option ResolvedPermissionMode) :=
  match (getEntry root "permissionMode").bind JsonValue.asStr with
  | some mode => (parsePermissionModeLabel mode "merged settings.permissionMode").map some
  | none =>
    match (((getEntry root "permissions").bind JsonValue.asObject).bind
        fun permissions => getEntry permissions "defaultMode").bind JsonValue.asStr with
    | none => .ok none
    | some mode =>
      (parsePermissionModeLabel mode "merged settings.permissions.defaultMode").map some

def parseFilesystemModeLabel (value : String) : ConfigResult FilesystemIsolationMode :=
  if value = "off" then .ok .off
  else if value = "workspace-only" then .ok .workspaceOnly
  else if value = "allow-list" then .ok .allowList
  else parseError
    ("merged settings.sandbox.filesystemMode: unsupported filesystem mode " ++ value)

def parseOptionalFilesystemMode : Option String → ConfigResult (Option FilesystemIsolationMode)
  | none => .ok none
  | some label => (parseFilesystemModeLabel label).map some

def parseOptionalSandboxConfig (root : JsonObject) : ConfigResult SandboxConfig := do
  match getEntry root "sandbox" with
  | none => .ok {}
  | some sandboxValue =>
    let context := "merged settings.sandbox"
    let sandbox ← expectObject sandboxValue context
    let label ← optionalString sandbox "filesystemMode" context
    let filesystemMode ← parseOptionalFilesystemMode label
    let enabled ← optionalBool sandbox "enabled" context
    let namespaceRestrictions ← optionalBool sandbox "namespaceRestrictions" context
    let networkIsolation ← optionalBool sandbox "networkIsolation" context
    let allowedMounts ← optionalStringArray sandbox "allowedMounts" context
    .ok ⟨enabled, namespaceRestrictions, networkIsolation, filesystemMode, allowedMounts.getD []⟩

def parseOptionalProviderFallbacks (root : JsonObject) : ConfigResult ProviderFallbackConfig := do
  match getEntry root "providerFallbacks" with
  | none => .ok {}
  | some value =>
    let context := "merged settings.providerFallbacks"
    let entry ← expectObject value context
    let primary ← optionalString entry "primary" context
    let fallbacks ← optionalStringArray entry "fallbacks" context
    .ok ⟨primary, fallbacks.getD []⟩

def parseOptionalTrustedRoots (root : JsonObject) : ConfigResult (List String) := do
  let roots ← optionalStringArray root "trustedRoots" "merged settings.trustedRoots"
  .ok (roots.getD [])

def parseOptionalOauthConfig (root : JsonObject) (context : String) :
    ConfigResult (Option OAuthConfig) := do
  match getEntry root "oauth" with
  | none => .ok none
  | some oauthValue =>
    let object ← expectObject oauthValue context
    let clientId ← expectString object "clientId" context
    let authorizeUrl ← expectString object "authorizeUrl" context
    let tokenUrl ← expectString object "tokenUrl" context
    let callbackPort ← optionalU16 object "callbackPort" context
    let manualRedirectUrl ← optionalString object "manualRedirectUrl" context
    let scopes ← optionalStringArray object "scopes" context
    .ok (some ⟨clientId, authorizeUrl, tokenUrl, callbackPort, manualRedirectUrl,
      scopes.getD []⟩)

def inferMcpServerType (object : JsonObject) : String :=
  if (getEntry object "url").isSome then "http" else "stdio"

def parseOptionalMcpOauthConfig (object : JsonObject) (context : String) :
    ConfigResult (Option McpOAuthConfig) := do
  match getEntry object "oauth" with
  | none => .ok none
  | some value =>
    let oauth ← expectObject value (context ++ ".oauth")
    let clientId ← optionalString oauth "clientId" context
    let callbackPort ← optionalU16 oauth "callbackPort" context
    let authServerMetadataUrl ← optionalString oauth "authServerMetadataUrl" context
    let xaa ← optionalBool oauth "xaa" context
    .ok (some ⟨clientId, callbackPort, authServerMetadataUrl, xaa⟩)

def parseMcpRemoteServerConfig (object : JsonObject) (context : String) :
    ConfigResult McpRemoteServerConfig := do
  let url ← expectString object "url" context
  let headers ← optionalStringMap object "headers" context
  let headersHelper ← optionalString object "headersHelper" context
  let oauth ← parseOptionalMcpOauthConfig object context
  .ok ⟨url, headers.getD [], headersHelper, oauth⟩

def parseMcpServerConfig (serverName : String) (value : JsonValue) (context : String) :
    ConfigResult McpServerConfig := do
  let object ← expectObject value context
  let declared ← optionalString object "type" context
  let serverType := declared.getD (inferMcpServerType object)
  if serverType = "stdio" then
    let command ← expectString object "command" context
    let args ← optionalStringArray object "args" context
    let env ← optionalStringMap object "env" context
    let toolCallTimeoutMs ← optionalU64 object "toolCallTimeoutMs" context
    .ok (.stdio ⟨command, args.getD [], env.getD [], toolCallTimeoutMs⟩)
  else if serverType = "sse" then (parseMcpRemoteServerConfig object context).map .sse
  else if serverType = "http" then (parseMcpRemoteServerConfig object context).map .http
  else if serverType = "ws" then
    let url ← expectString object "url" context
    let headers ← optionalStringMap object "headers" context
    let headersHelper ← optionalString object "headersHelper" context
    .ok (.ws ⟨url, headers.getD [], headersHelper⟩)
  else if serverType = "sdk" then
    let name ← expectString object "name" context
    .ok (.sdk ⟨name⟩)
  else if serverType = "claudeai-proxy" then
    let url ← expectString object "url" context
    let id ← expectString object "id" context
    .ok (.managedProxy ⟨url, id⟩)
  else
    parseError (context ++ ": unsupported MCP server type for " ++ serverName ++ ": " ++ serverType)

abbrev McpServers := List (String × ScopedMcpServerConfig)

/-- The loop of `merge_mcp_servers`. -/
def insertMcpServers (source : ConfigSource) (context : String) :
    (target : McpServers) → JsonObject → ConfigResult McpServers
  | target, [] => .ok target
  | target, (name, value) :: servers => do
    let config ← parseMcpServerConfig name value (context ++ "." ++ name)
    insertMcpServers source context (insertEntry name ⟨source, config⟩ target) servers

def mergeMcpServers (target : McpServers) (source : ConfigSource) (root : JsonObject)
    (path : PathBuf) : ConfigResult McpServers := do
  match getEntry root "mcpServers" with
  | none => .ok target
  | some mcpServers =>
    let context := path.display ++ ": mcpServers"
    let servers ← expectObject mcpServers context
    insertMcpServers source context target servers

/-- `fs::read_to_string`, as far as its outcome is looked at. -/
inductive ReadOutcome where
  | contents (text : List Char)
  | notFound
  | failed (message : String)

structure ParsedConfigFile where
  object : JsonObject
  source : List Char

def readOptionalJsonObject (read : PathBuf → ReadOutcome) (path : PathBuf) :
    ConfigResult (Option ParsedConfigFile) :=
  let isLegacyConfig := path.fileName = some ".claw.json"
  match read path with
  | .notFound => .ok none
  | .failed message => .error (.io message)
  | .contents contents =>
    if trim contents = [] then .ok (some ⟨[], contents⟩)
    else
      match JsonValue.parse contents with
      | .error error =>
        if isLegacyConfig then .ok none
        else parseError (path.display ++ ": " ++ error.message)
      | .ok parsed =>
        match parsed.asObject with
        | some object => .ok (some ⟨object, contents⟩)
        | none =>
          if isLegacyConfig then .ok none
          else parseError
            (path.display ++ ": top-level settings value must be a JSON object")

/-- `Path::extension`. -/
def pathExtension (path : PathBuf) : Option String := path.fileName.bind Path.extension

def checkUnsupportedFormat (path : PathBuf) : ConfigResult Unit :=
  match pathExtension path with
  | none => .ok ()
  | some ext =>
    if toAsciiLowercase ext = "toml" then
      parseError (path.display ++
        ": TOML config files are not supported. Use JSON (settings.json) instead")
    else .ok ()

mutual

/-- The value of a key after a merge, from the one it had. -/
def mergeValue (existing : Option JsonValue) : (incoming : JsonValue) → JsonValue
  | .object incoming =>
    match existing with
    | some (.object existing) => .object (deepMergeObjects existing incoming)
    | _ => .object incoming
  | value => value
termination_by structural value => value

def deepMergeObjects (target : JsonObject) : (source : JsonObject) → JsonObject
  | [] => target
  | entry :: source => deepMergeObjects (mergeEntry target entry) source
termination_by structural source => source

/-- One round of the loop of `deep_merge_objects`. -/
def mergeEntry (target : JsonObject) : (entry : String × JsonValue) → JsonObject
  | (key, value) => insertEntry key (mergeValue (getEntry target key) value) target
termination_by structural entry => entry

end

structure ConfigLoader where
  cwd : PathBuf
  configHome : PathBuf
  deriving DecidableEq

/-- The state of the loop of `ConfigLoader::load`. -/
structure LoadState where
  merged : JsonObject := []
  loadedEntries : List ConfigEntry := []
  mcpServers : McpServers := []
  warnings : List ConfigDiagnostic := []

namespace ConfigLoader

def discover (loader : ConfigLoader) : List ConfigEntry :=
  let userLegacyPath := match loader.configHome.parent with
    | none => PathBuf.ofText ".claw.json"
    | some parent => parent.push ".claw.json"
  [⟨.user, userLegacyPath⟩,
    ⟨.user, loader.configHome.push "settings.json"⟩,
    ⟨.project, loader.cwd.push ".claw.json"⟩,
    ⟨.project, (loader.cwd.push ".claw").push "settings.json"⟩,
    ⟨.local, (loader.cwd.push ".claw").push "settings.local.json"⟩]

def addFile (state : LoadState) (entry : ConfigEntry) (parsed : ParsedConfigFile) :
    ConfigResult LoadState := do
  let validation := validateConfigFile parsed.object parsed.source entry.path
  match validation.errors with
  | firstError :: _ => parseError firstError.display
  | [] =>
    validateOptionalHooksConfig parsed.object entry.path
    let mcpServers ← mergeMcpServers state.mcpServers entry.source parsed.object entry.path
    .ok ⟨deepMergeObjects state.merged parsed.object, state.loadedEntries ++ [entry], mcpServers,
      state.warnings ++ validation.warnings⟩

/-- The loop of `ConfigLoader::load`. -/
def loadEntries (read : PathBuf → ReadOutcome) : (state : LoadState) → List ConfigEntry →
    ConfigResult LoadState
  | state, [] => .ok state
  | state, entry :: entries => do
    checkUnsupportedFormat entry.path
    match ← readOptionalJsonObject read entry.path with
    | none => loadEntries read state entries
    | some parsed =>
      let state ← addFile state entry parsed
      loadEntries read state entries

def parseFeatures (merged : JsonObject) (mcp : McpServers) : ConfigResult RuntimeFeatureConfig := do
  let hooks ← parseOptionalHooksConfig merged
  let plugins ← parseOptionalPluginConfig merged
  let oauth ← parseOptionalOauthConfig merged "merged settings.oauth"
  let model := parseOptionalModel merged
  let aliases ← parseOptionalAliases merged
  let permissionMode ← parseOptionalPermissionMode merged
  let permissionRules ← parseOptionalPermissionRules merged
  let sandbox ← parseOptionalSandboxConfig merged
  let providerFallbacks ← parseOptionalProviderFallbacks merged
  let trustedRoots ← parseOptionalTrustedRoots merged
  .ok ⟨hooks, plugins, mcp, oauth, model, aliases, permissionMode, permissionRules, sandbox,
    providerFallbacks, trustedRoots⟩

/-- `ConfigLoader::load`; the warnings of the loop are printed on the way. -/
def load (loader : ConfigLoader) (read : PathBuf → ReadOutcome) : ConfigResult RuntimeConfig := do
  let state ← loadEntries read {} loader.discover
  let featureConfig ← parseFeatures state.merged state.mcpServers
  .ok ⟨state.merged, state.loadedEntries, featureConfig⟩

end ConfigLoader

end DbClinic.Runtime.Config
