import DbClinic.Plugins.Manifest
import DbClinic.Runtime.Config

/-!
The plugin manager. It keeps three stores: the tree with the installed copies,
the registry file and the settings file; beside them it holds the map of
enabled plugins in memory. The two files are apart from the tree, which has the
plugin directories only. Every step that changes a store may fail: a plan says
which ones do, and a step that fails changes nothing. The serializer, the text
of a file's content and `git` are parameters.
-/

namespace DbClinic.Plugins

open DbClinic.Runtime DbClinic.Runtime.Config

/-- What the manager uses from outside. -/
structure Environment (α : Type) where
  cwd : Path
  /-- `env!("CARGO_MANIFEST_DIR")`. -/
  manifestDir : Path
  readToString : α → Option (List Char)
  fromStr : List Char → Except String Serde.Value
  toStringPretty : Serde.Value → List Char
  rawManifest : Serde.Value → Except String RawPluginManifest
  registryFromStr : List Char → Except String InstalledPluginRegistry
  registryToString : InstalledPluginRegistry → List Char
  gitClone : (url : String) → (destination : Path) → FileTree α → Except String (FileTree α)

structure PluginManagerConfig where
  configHome : Path
  externalDirs : List Path := []
  installRoot : Option Path := none
  bundledRoot : Option Path := none
  deriving DecidableEq

/-- The stores, the map in memory, and the plan of the steps to come: `true` is
a step that fails. -/
structure World (α : Type) where
  tree : FileTree α
  registryFile : ReadOutcome
  settingsFile : ReadOutcome
  enabledPlugins : List (String × Bool)
  faults : List Bool := []
  clock : Nat := 0

structure PluginMetadata where
  id : String
  name : String
  version : String
  description : String
  kind : PluginKind
  source : String
  defaultEnabled : Bool
  root : Option Path
  deriving DecidableEq

structure PluginDiscovery where
  plugins : List PluginMetadata := []
  failures : List Path := []
  deriving DecidableEq

variable {α : Type}

abbrev Run (α β : Type) := EStateM PluginError (World α) β

def liftResult {β : Type} : Except PluginError β → Run α β
  | .ok b => pure b
  | .error e => throw e

def step : Run α Unit := fun w =>
  match w.faults with
  | true :: faults => .error (.io .device) { w with faults }
  | _ => .ok () { w with faults := w.faults.tail }

def onTree (change : FileTree α → Except IoError (FileTree α)) : Run α Unit := fun w =>
  match change w.tree with
  | .ok tree => .ok () { w with tree }
  | .error e => .error (.io (.refused e)) w

def createDirAll (path : Path) : Run α Unit := do
  step
  onTree fun tree => tree.createDirAll path

def removeDirAll (path : Path) : Run α Unit := do
  step
  onTree fun tree => tree.removeDirAll path

def writeFile (path : Path) (data : α) : Run α Unit := do
  step
  onTree fun tree => tree.writeFile path data

/-- `fs::remove_dir_all` behind a check that the path exists. -/
def removeIfExists (path : Path) : Run α Unit := do
  let w ← get
  if w.tree.pathExists path then removeDirAll path

/-- The loop of `copy_dir_all`. -/
def copyEntries (copyDir : Path → Path → Run α Unit) (source destination : Path) :
    List String → Run α Unit
  | [] => pure ()
  | name :: rest => do
    let w ← get
    match w.tree.get (source ++ [name]) with
    | some .dir => copyDir (source ++ [name]) (destination ++ [name])
    | some (.file data) => writeFile (destination ++ [name]) data
    | none => throw (.io (.refused .notFound))
    copyEntries copyDir source destination rest

/-- The entries of a directory, as `fs::read_dir` lists them. -/
def readDir (path : Path) : Run α (List String) := do
  let w ← get
  match w.tree.get path with
  | some .dir => pure (w.tree.readDir path)
  | some (.file _) => throw (.io (.refused .notADirectory))
  | none => throw (.io (.refused .notFound))

def copyDirAllFrom : (depth : Nat) → (source destination : Path) → Run α Unit
  | 0, _, _ => throw (.io .nameTooLong)
  | depth + 1, source, destination => do
    createDirAll destination
    let names ← readDir source
    copyEntries (copyDirAllFrom depth) source destination names

/-- `copy_dir_all`. No path that the operating system takes has more than 4096
names, so a copy into its own source ends there. -/
def copyDirAll (source destination : Path) : Run α Unit :=
  copyDirAllFrom 4096 source destination

section Loading

variable (env : Environment α) (tree : FileTree α)

def pluginManifestPath (root : Path) : Except PluginError Path :=
  let directPath := root ++ ["plugin.json"]
  let packagedPath := root ++ [".claude-plugin", "plugin.json"]
  if tree.pathExists directPath then .ok directPath
  else if tree.pathExists packagedPath then .ok packagedPath
  else .error (.notFound ("plugin manifest not found at " ++ joinText "/" directPath ++ " or " ++
    joinText "/" packagedPath))

def loadManifestFromPath (root manifestPath : Path) : Except PluginError PluginManifest :=
  match (tree.fileAt manifestPath).bind env.readToString with
  | none => .error (.notFound ("plugin manifest not found at " ++ joinText "/" manifestPath))
  | some contents =>
    match env.fromStr contents with
    | .error e => .error (.json e)
    | .ok rawJson =>
      let compatibilityErrors := manifestContractGaps rawJson
      if compatibilityErrors ≠ [] then .error (.manifestValidation compatibilityErrors)
      else
        match env.rawManifest rawJson with
        | .error e => .error (.json e)
        | .ok rawManifest => buildPluginManifest tree root rawManifest

/-- `load_plugin_from_directory`. -/
def loadPluginFromDirectory (root : Path) : Except PluginError PluginManifest := do
  let manifestPath ← pluginManifestPath tree root
  loadManifestFromPath env tree root manifestPath

def loadPluginDefinition (root : Path) (kind : PluginKind) (source marketplace : String) :
    Except PluginError PluginMetadata := do
  let manifest ← loadPluginFromDirectory env tree root
  .ok ⟨pluginId manifest.name marketplace, manifest.name, manifest.version, manifest.description,
    kind, source, manifest.defaultEnabled, some root⟩

def isPluginDir (path : Path) : Bool :=
  match tree.get path with
  | some .dir => (pluginManifestPath tree path).toBool
  | _ => false

/-- The directories below a root that hold a manifest, in the order of their names. -/
def discoverPluginDirs (root : Path) : Except PluginError (List Path) :=
  match tree.get root with
  | none => .ok []
  | some (.file _) => .error (.io (.refused .notADirectory))
  | some .dir =>
    let names := (tree.readDir root).mergeSort fun a b => decide (a ≤ b)
    .ok ((names.map fun name => root ++ [name]).filter fun path => isPluginDir tree path)

end Loading

section Manager

variable (env : Environment α) (config : PluginManagerConfig)

def installRoot : Path := config.installRoot.getD (config.configHome ++ ["plugins", "installed"])

def loadRegistry : Run α InstalledPluginRegistry := do
  let w ← get
  match w.registryFile with
  | .notFound => pure []
  | .failed _ => throw (.io .device)
  | .contents contents =>
    if trim contents = [] then pure []
    else
      match env.registryFromStr contents with
      | .ok registry => pure registry
      | .error e => throw (.json e)

def storeRegistry (registry : InstalledPluginRegistry) : Run α Unit := do
  step
  step
  modify fun w => { w with registryFile := .contents (env.registryToString registry) }

abbrev JsonMap := List (String × Serde.Value)

def removeEntry {β : Type} (entries : List (String × β)) (key : String) : List (String × β) :=
  entries.filter fun e => e.1 ≠ key

/-- `ensure_object`: the object under the key, an empty one where there is none. -/
def objectAt (root : JsonMap) (key : String) : JsonMap :=
  match getEntry root key with
  | some (.object entries) => entries
  | _ => []

/-- The change that `write_enabled_state` makes to the settings. -/
def setEnabledState (pluginId : String) (enabled : Option Bool) (root : JsonMap) : JsonMap :=
  let enabledPlugins := objectAt root "enabledPlugins"
  let enabledPlugins := match enabled with
    | some value => insertEntry pluginId (.bool value) enabledPlugins
    | none => removeEntry enabledPlugins pluginId
  insertEntry "enabledPlugins" (.object enabledPlugins) root

/-- The object that `update_settings_json` starts from. -/
def settingsRoot (settingsFile : ReadOutcome) : Except PluginError JsonMap :=
  match settingsFile with
  | .notFound => .ok []
  | .failed _ => .error (.io .device)
  | .contents contents =>
    if trim contents = [] then .ok []
    else
      match env.fromStr contents with
      | .error e => .error (.json e)
      | .ok (.object root) => .ok root
      | .ok _ => .error (.invalidManifest
          ("settings file " ++ joinText "/" (config.configHome ++ ["settings.json"]) ++
            " must contain a JSON object"))

def updateSettingsJson (update : JsonMap → JsonMap) : Run α Unit := do
  step
  let w ← get
  let root ← liftResult (settingsRoot env config w.settingsFile)
  step
  modify fun w =>
    { w with settingsFile := .contents (env.toStringPretty (.object (update root))) }

def writeEnabledState (pluginId : String) (enabled : Option Bool) : Run α Unit :=
  updateSettingsJson env config (setEnabledState pluginId enabled)

def setEnabled (pluginId : String) (enabled : Bool) : Run α Unit :=
  modify fun w => { w with enabledPlugins := insertEntry pluginId enabled w.enabledPlugins }

def uninstall (pluginId : String) : Run α Unit := do
  let registry ← loadRegistry env
  match getEntry registry pluginId with
  | none => throw (.notFound ("plugin \x60" ++ pluginId ++ "\x60 is not installed"))
  | some record =>
    if record.kind = .bundled then
      throw (.commandFailed ("plugin \x60" ++ pluginId ++
        "\x60 is bundled and managed automatically; disable it instead"))
    else do
      removeIfExists record.installPath
      storeRegistry env (removeEntry registry pluginId)
      writeEnabledState env config pluginId none
      modify fun w => { w with enabledPlugins := removeEntry w.enabledPlugins pluginId }

/-- The test of `sync_bundled_plugins` whether a copy has to be made again. -/
def needsSync (tree : FileTree α) (manifest : PluginManifest) (installPath : Path) :
    Option InstalledPluginRecord → Bool
  | none => true
  | some record =>
    record.kind ≠ .bundled || record.version ≠ manifest.version ||
      record.name ≠ manifest.name || record.description ≠ manifest.description ||
      record.installPath ≠ installPath || !tree.pathExists record.installPath ||
      !(tree.pathExists installPath && (loadPluginFromDirectory env tree installPath).toBool)

/-- The state of the loops of `sync_bundled_plugins`. -/
structure SyncState where
  registry : InstalledPluginRegistry
  changed : Bool
  activeBundledIds : List String

def syncBundledPlugin (state : SyncState) (sourceRoot : Path) : Run α SyncState := do
  let w ← get
  let manifest ← liftResult (loadPluginFromDirectory env w.tree sourceRoot)
  let id := pluginId manifest.name "bundled"
  let state := { state with activeBundledIds := id :: state.activeBundledIds }
  let installPath := installRoot config ++ [sanitizePluginId id]
  let existing := getEntry state.registry id
  if needsSync env w.tree manifest installPath existing then do
    removeIfExists installPath
    copyDirAll sourceRoot installPath
    let record : InstalledPluginRecord :=
      { kind := .bundled, id, name := manifest.name, version := manifest.version,
        description := manifest.description, installPath,
        source := .localPath ("/" ++ joinText "/" sourceRoot),
        installedAtUnixMs := (existing.map InstalledPluginRecord.installedAtUnixMs).getD w.clock,
        updatedAtUnixMs := w.clock }
    pure { state with registry := insertEntry id record state.registry, changed := true }
  else pure state

/-- The loop that makes the copies. -/
def syncBundledFrom : (state : SyncState) → List Path → Run α SyncState
  | state, [] => pure state
  | state, sourceRoot :: rest => do
    let next ← syncBundledPlugin env config state sourceRoot
    syncBundledFrom next rest

/-- The loop that drops the bundled records without a bundle. -/
def pruneStaleFrom : (state : SyncState) → List (String × InstalledPluginRecord) →
    Run α SyncState
  | state, [] => pure state
  | state, (id, record) :: rest =>
    if record.kind = .bundled ∧ id ∉ state.activeBundledIds then do
      removeIfExists record.installPath
      pruneStaleFrom
        { state with registry := removeEntry state.registry id, changed := true } rest
    else pruneStaleFrom state rest

def syncBundledPlugins : Run α Unit := do
  let bundledRoot := config.bundledRoot.getD (env.manifestDir ++ ["bundled"])
  let w ← get
  let bundledPlugins ← liftResult (discoverPluginDirs w.tree bundledRoot)
  let registry ← loadRegistry env
  let state ← syncBundledFrom env config ⟨registry, false, []⟩ bundledPlugins
  let state ← pruneStaleFrom state state.registry
  if state.changed then storeRegistry env state.registry

def describeInstallSource : PluginInstallSource → String
  | .localPath path => path
  | .gitUrl url => url

/-- The state of the loops of `discover_installed_plugins_with_failures`. -/
structure InstalledScan where
  discovery : PluginDiscovery := {}
  seenPaths : List Path := []
  staleRegistryIds : List String := []

/-- A plugin that was loaded counts once for each id. -/
def InstalledScan.addDefinition (scan : InstalledScan) (path : Path) :
    Except PluginError PluginMetadata → InstalledScan
  | .ok plugin =>
    if plugin.id ∈ scan.discovery.plugins.map PluginMetadata.id then scan
    else { scan with
      discovery := { scan.discovery with plugins := scan.discovery.plugins ++ [plugin] },
      seenPaths := path :: scan.seenPaths }
  | .error _ =>
    { scan with
      discovery := { scan.discovery with failures := scan.discovery.failures ++ [path] } }

def InstalledScan.addDirectory (tree : FileTree α) (registry : InstalledPluginRegistry)
    (scan : InstalledScan) (installPath : Path) : InstalledScan :=
  let matched := (registry.map Prod.snd).find? fun record => record.installPath = installPath
  let kind := (matched.map InstalledPluginRecord.kind).getD .external
  let source := (matched.map fun record => describeInstallSource record.source).getD
    ("/" ++ joinText "/" installPath)
  scan.addDefinition installPath (loadPluginDefinition env tree installPath kind source
    kind.marketplace)

def InstalledScan.addRecord (tree : FileTree α) (scan : InstalledScan)
    (record : InstalledPluginRecord) : InstalledScan :=
  if record.installPath ∈ scan.seenPaths then scan
  else if !tree.pathExists record.installPath ||
      !(pluginManifestPath tree record.installPath).toBool then
    { scan with staleRegistryIds := scan.staleRegistryIds ++ [record.id] }
  else
    scan.addDefinition record.installPath (loadPluginDefinition env tree record.installPath
      record.kind (describeInstallSource record.source) record.kind.marketplace)

def discoverInstalledPluginsWithFailures : Run α PluginDiscovery := do
  let registry ← loadRegistry env
  let w ← get
  let dirs ← liftResult (discoverPluginDirs w.tree (installRoot config))
  let scan := dirs.foldl (InstalledScan.addDirectory env w.tree registry) {}
  let scan := (registry.map Prod.snd).foldl (InstalledScan.addRecord env w.tree) scan
  if scan.staleRegistryIds ≠ [] then
    storeRegistry env (scan.staleRegistryIds.foldl removeEntry registry)
  pure scan.discovery

def addExternal (tree : FileTree α) (existing : List PluginMetadata) (discovery : PluginDiscovery)
    (root : Path) : PluginDiscovery :=
  match loadPluginDefinition env tree root .external ("/" ++ joinText "/" root) "external" with
  | .ok plugin =>
    if plugin.id ∈ (existing ++ discovery.plugins).map PluginMetadata.id then discovery
    else { discovery with plugins := discovery.plugins ++ [plugin] }
  | .error _ => { discovery with failures := discovery.failures ++ [root] }

def discoverExternalDirectoryPluginsWithFailures (existing : List PluginMetadata) :
    Run α PluginDiscovery := do
  let w ← get
  let dirs ← liftResult (config.externalDirs.mapM (discoverPluginDirs w.tree))
  pure (dirs.flatten.foldl (addExternal env w.tree existing) {})

/-- `builtin_plugins`. -/
def builtinPlugins : List PluginMetadata :=
  [⟨pluginId "example-builtin" "builtin", "example-builtin", "0.1.0",
    "Example built-in plugin scaffold for the Rust plugin system", .builtin, "builtin", false,
    none⟩]

/-- `plugin_registry`: the ids of the plugins, if all of them load. -/
def pluginRegistry : Run α (List PluginMetadata) := do
  syncBundledPlugins env config
  let installed ← discoverInstalledPluginsWithFailures env config
  let known := builtinPlugins ++ installed.plugins
  let external ← discoverExternalDirectoryPluginsWithFailures env config known
  let failures := installed.failures ++ external.failures
  if failures ≠ [] then throw (.loadFailures failures)
  else pure (known ++ external.plugins)

def ensureKnownPlugin (pluginId : String) : Run α Unit := do
  let plugins ← pluginRegistry env config
  if pluginId ∈ plugins.map PluginMetadata.id then pure ()
  else throw (.notFound ("plugin \x60" ++ pluginId ++ "\x60 is not installed or discoverable"))

def enable (pluginId : String) : Run α Unit := do
  ensureKnownPlugin env config pluginId
  writeEnabledState env config pluginId (some true)
  setEnabled pluginId true

def disable (pluginId : String) : Run α Unit := do
  ensureKnownPlugin env config pluginId
  writeEnabledState env config pluginId (some false)
  setEnabled pluginId false

end Manager

end DbClinic.Plugins
