import DbClinic.Runtime.ConfigSettings

/-!
Which file a loaded setting comes from. A setting with one place is what the
highest file that mentions the place says. The permission mode and the states
of the plugins have a current and a deprecated place; the loader looks at them
in the merged object, where a low file under the one spelling can stand before
a high file under the other.
-/

namespace DbClinic.Runtime.Config

open Outcomes ConfigLoader List

def loadedFiles (read : PathBuf → ReadOutcome) (entries : List ConfigEntry) :
    List (ConfigEntry × JsonObject) :=
  entries.filterMap fun entry =>
    match readOptionalJsonObject read entry.path with
    | .ok (some parsed) => some (entry, parsed.object)
    | _ => none

def serverOf (name : String) (file : ConfigEntry × JsonObject) : Option ScopedMcpServerConfig :=
  (valueAt ["mcpServers", name] (.object file.2)).bind fun value =>
    (parseMcpServerConfig name value
      (file.1.path.display ++ ": mcpServers" ++ "." ++ name)).toOption.map fun config =>
        ⟨file.1.source, config⟩

def TypedBy (fields : List FieldSpec) (object : JsonObject) : Prop :=
  ∀ {key : String} {value : JsonValue} {spec : FieldSpec}, getEntry object key = some value →
    (fields.find? fun f => f.name = key) = some spec → spec.expected.accepts value = true

/-- What the loader knows of a file that it merges. -/
structure AcceptedFile (object : JsonObject) : Prop where
  storable : (JsonValue.object object).Storable
  topLevel : TypedBy topLevelFields object
  plugins : ∀ plugins, getEntry object "plugins" = some (.object plugins) →
    TypedBy pluginsFields plugins

variable {files : List JsonObject} {object : JsonObject} {read : PathBuf → ReadOutcome}

variable {source : List Char} {path : PathBuf} {value : JsonValue} {target result : McpServers}
variable {file : JsonObject}

theorem typedBy_of_validated {fields : List FieldSpec} {path : String} {pathDisplay : String}
    (h : (validateObjectKeys object fields path source pathDisplay).errors = []) :
    TypedBy fields object := by
  intro key value spec hentry hspec
  obtain ⟨e, he, hval⟩ := Option.map_eq_some_iff.mp hentry
  have hkey : e.1 = key := by simpa using find?_some he
  have herror : entryError fields path source pathDisplay e.1 e.2 = none :=
    filterMap_eq_nil_iff.mp h e (mem_of_find?_eq_some he)
  subst hkey
  subst hval
  unfold entryError at herror
  dsimp only at herror
  rw [hspec] at herror
  dsimp only at herror
  split at herror
  · assumption
  · cases herror

theorem validated_parts (h : (validateConfigFile object source path).errors = []) :
    TypedBy topLevelFields object ∧ ∀ plugins,
      getEntry object "plugins" = some (.object plugins) → TypedBy pluginsFields plugins := by
  simp only [validateConfigFile, ValidationResult.merge, append_eq_nil_iff] at h
  obtain ⟨⟨⟨⟨⟨⟨htop, _⟩, _⟩, _⟩, hplugins⟩, _⟩, _⟩ := h
  refine ⟨typedBy_of_validated htop, ?_⟩
  intro plugins hentry
  unfold validateNested at hplugins
  rw [hentry] at hplugins
  exact typedBy_of_validated hplugins

theorem accepts_object (h : FieldType.object.accepts value = true) :
    ∃ entries, value = .object entries := by
  obtain ⟨entries, hents⟩ := Option.isSome_iff_exists.mp h
  exact ⟨entries, asObject_eq_some.mp hents⟩

theorem accepts_string (h : FieldType.string.accepts value = true) :
    ∃ text, value = .string text := by
  cases value with
  | string text => exact ⟨text, rfl⟩
  | _ => cases h

namespace AcceptedFile

variable {object : JsonObject} {value : JsonValue}

theorem permissionMode_string (h : AcceptedFile object)
    (hentry : getEntry object "permissionMode" = some value) : ∃ text, value = .string text :=
  accepts_string (h.topLevel hentry rfl)

theorem plugins_object (h : AcceptedFile object)
    (hentry : getEntry object "plugins" = some value) : ∃ plugins, value = .object plugins :=
  accepts_object (h.topLevel hentry rfl)

end AcceptedFile

theorem insertMcpServers_ok {source : ConfigSource} {context : String} {servers : JsonObject}
    (hservers : KeyOrdered servers)
    (h : insertMcpServers source context target servers = .ok result) (name : String) :
    getEntry result name =
      ((getEntry servers name).bind fun value =>
        (parseMcpServerConfig name value (context ++ "." ++ name)).toOption.map fun config =>
          ScopedMcpServerConfig.mk source config).or (getEntry target name) := by
  induction servers generalizing target with
  | nil =>
    cases h
    rfl
  | cons e servers ih =>
    obtain ⟨key, value⟩ := e
    obtain ⟨hfirst, hrest⟩ := pairwise_cons.mp hservers
    obtain ⟨config, hconfig, hmore⟩ := bind_eq_ok h
    rw [ih hrest hmore, getEntry_insertEntry, getEntry_cons]
    by_cases hkey : key = name
    · -- No later server has this name.
      subst hkey
      have hlater : getEntry servers key = none := by
        refine Option.map_eq_none_iff.mpr (find?_eq_none.mpr ?_)
        intro d hd heq
        have hdkey : d.1 = key := by simpa using heq
        exact String.lt_irrefl key (hdkey ▸ hfirst d hd : key < key)
      rw [hlater, if_pos rfl, if_pos rfl, Option.bind_some, hconfig]
      rfl
    · rw [if_neg hkey, if_neg hkey]

theorem mergeMcpServers_ok {entry : ConfigEntry} (hobject : (JsonValue.object object).Storable)
    (h : mergeMcpServers target entry.source object entry.path = .ok result) (name : String) :
    getEntry result name = (serverOf name (entry, object)).or (getEntry target name) := by
  unfold mergeMcpServers at h
  have hval : valueAt ["mcpServers", name] (.object object) =
      (getEntry object "mcpServers").bind (valueAt [name]) := rfl
  split at h
  · rename_i hmissing
    cases h
    rw [serverOf, hval, hmissing]
    rfl
  · rename_i value hentry
    obtain ⟨servers, hservers, hinsert⟩ := bind_eq_ok h
    rw [expectObject_ok hservers] at hentry
    rw [insertMcpServers_ok (storable_of_getEntry hobject hentry).1 hinsert, serverOf, hval,
      hentry, Option.bind_some]
    congr 2
    exact (Option.bind_fun_some _).symm

theorem readOptionalJsonObject_storable {parsed : ParsedConfigFile}
    (h : readOptionalJsonObject read path = .ok (some parsed)) :
    (JsonValue.object parsed.object).Storable := by
  unfold readOptionalJsonObject at h
  dsimp only at h
  split at h
  · cases h
  · cases h
  · split at h
    · cases h
      exact ⟨List.Pairwise.nil, trivial⟩
    · split at h
      · split at h <;> cases h
      · rename_i value hparse
        split at h
        · rename_i entries hobject
          cases h
          rw [← asObject_eq_some.mp hobject]
          exact JsonValue.parse_storable hparse
        · split at h <;> cases h

theorem loadEntries_ok {entries : List ConfigEntry} {state final : LoadState}
    (h : loadEntries read state entries = .ok final) :
    final.merged =
      ((loadedFiles read entries).map Prod.snd).foldl deepMergeObjects state.merged ∧
    (∀ file ∈ loadedFiles read entries, AcceptedFile file.2) ∧
    ∀ name, getEntry final.mcpServers name =
      (highest (serverOf name) (loadedFiles read entries)).or (getEntry state.mcpServers name) := by
  induction entries generalizing state with
  | nil =>
    cases h
    exact ⟨rfl, forall_mem_nil _, fun _ => rfl⟩
  | cons entry entries ih =>
    obtain ⟨_, _, hread⟩ := bind_eq_ok h
    obtain ⟨parsed, hparsed, hrest⟩ := bind_eq_ok hread
    cases parsed with
    | none =>
      have hfiles : loadedFiles read (entry :: entries) = loadedFiles read entries := by
        unfold loadedFiles
        rw [filterMap_cons, hparsed]
      rw [hfiles]
      exact ih hrest
    | some parsed =>
      obtain ⟨next, hadd, hmore⟩ := bind_eq_ok hrest
      have hfiles : loadedFiles read (entry :: entries) =
          (entry, parsed.object) :: loadedFiles read entries := by
        unfold loadedFiles
        rw [filterMap_cons, hparsed]
      have hstorable := readOptionalJsonObject_storable hparsed
      unfold addFile at hadd
      dsimp only at hadd
      split at hadd
      · cases hadd
      · rename_i hvalid
        obtain ⟨_, _, hservers⟩ := bind_eq_ok hadd
        obtain ⟨servers, hmerge, hnext⟩ := bind_eq_ok hservers
        cases hnext
        obtain ⟨htop, hplugins⟩ := validated_parts hvalid
        obtain ⟨hmerged, haccepted, hnames⟩ := ih hmore
        rw [hfiles]
        refine ⟨hmerged, forall_mem_cons.mpr
          ⟨⟨hstorable, htop, hplugins⟩, haccepted⟩, ?_⟩
        intro name
        rw [hnames, highest, mergeMcpServers_ok hstorable hmerge, Option.or_assoc]

def stringSettings : List ((RuntimeFeatureConfig → Option String) × List String) :=
  [(fun c => c.model, ["model"]),
    (fun c => c.plugins.installRoot, ["plugins", "installRoot"]),
    (fun c => c.plugins.registryPath, ["plugins", "registryPath"]),
    (fun c => c.plugins.bundledRoot, ["plugins", "bundledRoot"]),
    (fun c => c.providerFallbacks.primary, ["providerFallbacks", "primary"]),
    (fun c => c.oauth.map OAuthConfig.clientId, ["oauth", "clientId"]),
    (fun c => c.oauth.map OAuthConfig.authorizeUrl, ["oauth", "authorizeUrl"]),
    (fun c => c.oauth.map OAuthConfig.tokenUrl, ["oauth", "tokenUrl"]),
    (fun c => c.oauth.bind OAuthConfig.manualRedirectUrl, ["oauth", "manualRedirectUrl"])]

def arraySettings : List ((RuntimeFeatureConfig → List String) × List String) :=
  [(fun c => c.hooks.preToolUse, ["hooks", "PreToolUse"]),
    (fun c => c.hooks.postToolUse, ["hooks", "PostToolUse"]),
    (fun c => c.hooks.postToolUseFailure, ["hooks", "PostToolUseFailure"]),
    (fun c => c.permissionRules.allow, ["permissions", "allow"]),
    (fun c => c.permissionRules.deny, ["permissions", "deny"]),
    (fun c => c.permissionRules.ask, ["permissions", "ask"]),
    (fun c => c.plugins.externalDirectories, ["plugins", "externalDirectories"]),
    (fun c => c.sandbox.allowedMounts, ["sandbox", "allowedMounts"]),
    (fun c => c.providerFallbacks.fallbacks, ["providerFallbacks", "fallbacks"]),
    (fun c => c.trustedRoots, ["trustedRoots"]),
    (fun c => (c.oauth.map OAuthConfig.scopes).getD [], ["oauth", "scopes"])]

def boolSettings : List ((RuntimeFeatureConfig → Option Bool) × List String) :=
  [(fun c => c.sandbox.enabled, ["sandbox", "enabled"]),
    (fun c => c.sandbox.namespaceRestrictions, ["sandbox", "namespaceRestrictions"]),
    (fun c => c.sandbox.networkIsolation, ["sandbox", "networkIsolation"])]

def numberSettings : List ((RuntimeFeatureConfig → Option Int) × List String) :=
  [(fun c => c.plugins.maxOutputTokens.map fun n => (n.val : Int),
      ["plugins", "maxOutputTokens"]),
    (fun c => (c.oauth.bind OAuthConfig.callbackPort).map fun n => (n.val : Int),
      ["oauth", "callbackPort"])]

def permissionModePlaces : List (List String) :=
  [["permissionMode"], ["permissions", "defaultMode"]]

def pluginPlaces (id : String) : List (List String) :=
  [["plugins", "enabled", id], ["enabledPlugins", id]]

/-- Every loaded setting is the one of the highest file that specifies it in
any of its places; an MCP server is one setting. -/
structure FollowsPrecedence (files : List (ConfigEntry × JsonObject)) (config : RuntimeConfig) :
    Prop where
  leaves : ∀ path, leafAt path (.object config.merged) = specified [path] (files.map Prod.snd)
  strings : ∀ s ∈ stringSettings, s.1 config.featureConfig =
    (specified [s.2] (files.map Prod.snd)).bind JsonValue.asStr
  arrays : ∀ s ∈ arraySettings, s.1 config.featureConfig =
    ((specified [s.2] (files.map Prod.snd)).bind stringsOf).getD []
  bools : ∀ s ∈ boolSettings, s.1 config.featureConfig =
    (specified [s.2] (files.map Prod.snd)).bind JsonValue.asBool
  numbers : ∀ s ∈ numberSettings, s.1 config.featureConfig =
    (specified [s.2] (files.map Prod.snd)).bind JsonValue.asI64
  filesystemMode : config.featureConfig.sandbox.filesystemMode =
    (specified [["sandbox", "filesystemMode"]] (files.map Prod.snd)).bind filesystemModeOf
  aliases : ∀ name, getEntry config.featureConfig.aliases name =
    (specified [["aliases", name]] (files.map Prod.snd)).bind JsonValue.asStr
  servers : ∀ name, getEntry config.featureConfig.mcp name = highest (serverOf name) files
  permissionMode : config.featureConfig.permissionMode =
    (specified permissionModePlaces (files.map Prod.snd)).bind permissionModeOf
  plugins : ∀ id, getEntry config.featureConfig.plugins.enabledPlugins id =
    (specified (pluginPlaces id) (files.map Prod.snd)).bind JsonValue.asBool

/-- Where a file has the deprecated spelling of the permission mode, the
highest of them names the same mode as the highest file with any spelling. -/
def ModeUnshadowed (files : List JsonObject) : Prop :=
  ∀ value, specified [["permissionMode"]] files = some value →
    permissionModeOf value = (specified permissionModePlaces files).bind permissionModeOf

/-- No file has the current table of plugins, or what the files say of the plugin
in that table is what they say of it in any table. -/
def PluginUnshadowed (files : List JsonObject) (id : String) : Prop :=
  (∀ file ∈ files, valueAt ["plugins", "enabled"] (.object file) = none) ∨
    (specified [["plugins", "enabled", id]] files).bind JsonValue.asBool =
      (specified (pluginPlaces id) files).bind JsonValue.asBool

theorem readAt_mergeFiles {α : Type} {read : JsonValue → Option α}
    (h : ∀ file ∈ files, AcceptedFile file) (path : List String) :
    readAt read path (mergeFiles files) = (specified [path] files).bind read := by
  unfold readAt
  rw [leafAt_mergeFiles (fun file hfile => (h file hfile).storable)]

theorem mentionAt_key {key : String} :
    mentionAt [key] (.object file) =
      (getEntry file key).map fun value => leafAt [] value := by
  unfold mentionAt
  rw [mentions_cons_object, leafAt_cons_object]
  cases getEntry file key <;> rfl

theorem specified_skip {path : List String} {places : List (List String)}
    (h : ∀ file ∈ files, mentionAt path (.object file) = none) :
    specified (path :: places) files = specified places files := by
  unfold specified
  rw [highest_congr fun file hfile => ?_]
  rw [findSome?_cons, h file hfile]

theorem specified_nil (files : List JsonObject) : specified [] files = none := by
  have hnone : highest (fun file => ([] : List (List String)).findSome? fun path =>
      mentionAt path (.object file)) files = none := highest_eq_none_iff.mpr fun _ _ => rfl
  rw [specified, hnone]
  rfl

theorem permissionMode_merged (h : ∀ file ∈ files, AcceptedFile file)
    (hnone : readAt JsonValue.asStr ["permissionMode"] (mergeFiles files) = none) :
    ∀ file ∈ files, mentionAt ["permissionMode"] (.object file) = none := by
  rw [readAt_mergeFiles h] at hnone
  unfold specified at hnone
  simp only [findSome?_singleton] at hnone
  cases hhighest : highest (fun file => mentionAt ["permissionMode"] (.object file)) files with
  | none => exact highest_eq_none_iff.mp hhighest
  | some mention =>
    -- The highest mention is a string, which the merged object would hold.
    obtain ⟨file, hfile, hmention⟩ := highest_eq_some hhighest
    rw [mentionAt_key] at hmention
    obtain ⟨value, hentry, hleaf⟩ := Option.map_eq_some_iff.mp hmention
    obtain ⟨text, rfl⟩ := (h file hfile).permissionMode_string hentry
    rw [hhighest, ← hleaf] at hnone
    cases hnone

theorem mode_iff {mode : Option ResolvedPermissionMode} (h : ∀ file ∈ files, AcceptedFile file)
    (hmode : parseOptionalPermissionMode (mergeFiles files) = .ok mode) :
    mode = (specified permissionModePlaces files).bind permissionModeOf ↔
      ModeUnshadowed files := by
  have hread := parseOptionalPermissionMode_ok hmode
  cases hlabel : readAt JsonValue.asStr ["permissionMode"] (mergeFiles files) with
  | none =>
    have hskip := permissionMode_merged h hlabel
    have hplaces : specified permissionModePlaces files =
        specified [["permissions", "defaultMode"]] files := specified_skip hskip
    rw [hlabel, Option.isSome_none, if_neg Bool.false_ne_true, readAt_mergeFiles h] at hread
    rw [hplaces, ← hread]
    refine iff_of_true rfl ?_
    intro value hval
    -- No file has the deprecated spelling.
    have hnone : specified [["permissionMode"]] files = specified [] files := specified_skip hskip
    rw [hnone, specified_nil] at hval
    cases hval
  | some label =>
    rw [hlabel, Option.isSome_some, if_pos rfl, readAt_mergeFiles h] at hread
    rw [readAt_mergeFiles h] at hlabel
    obtain ⟨value, hval, _⟩ := Option.bind_eq_some_iff.mp hlabel
    rw [hread, hval, Option.bind_some]
    constructor
    · intro hsame other hother
      rw [hval] at hother
      cases hother
      exact hsame
    · intro hunshadowed
      exact hunshadowed value hval

theorem valueAt_table {plugins : JsonObject}
    (hplugins : getEntry object "plugins" = some (.object plugins)) :
    valueAt ["plugins", "enabled"] (.object object) = getEntry plugins "enabled" := by
  change (getEntry object "plugins").bind _ = _
  rw [hplugins]
  exact Option.bind_fun_some _

theorem valueAt_table_missing (h : getEntry object "plugins" = none) :
    valueAt ["plugins", "enabled"] (.object object) = none := by
  change (getEntry object "plugins").bind _ = _
  rw [h]
  rfl

theorem table_merged (h : ∀ file ∈ files, AcceptedFile file) (start : JsonObject)
    (hstart : ∀ value, getEntry start "plugins" = some value →
      ∃ plugins, value = .object plugins) :
    (valueAt ["plugins", "enabled"] (.object (files.foldl deepMergeObjects start))).isSome = true ↔
      (valueAt ["plugins", "enabled"] (.object start)).isSome = true ∨
        ∃ file ∈ files, (valueAt ["plugins", "enabled"] (.object file)).isSome = true := by
  induction files generalizing start with
  | nil => simp
  | cons file files ih =>
    have hfile := h file mem_cons_self
    have hmerged := getEntry_deepMergeObjects hfile.storable.1 start "plugins"
    have hrest : ∀ f ∈ files, AcceptedFile f := fun f hf => h f (mem_cons_of_mem _ hf)
    -- One merge keeps the table of either side.
    have hobject : (∀ value, getEntry (deepMergeObjects start file) "plugins" = some value →
          ∃ plugins, value = .object plugins) ∧
        ((valueAt ["plugins", "enabled"] (.object (deepMergeObjects start file))).isSome = true ↔
          (valueAt ["plugins", "enabled"] (.object start)).isSome = true ∨
            (valueAt ["plugins", "enabled"] (.object file)).isSome = true) := by
      cases hentry : getEntry file "plugins" with
      | none =>
        rw [hentry] at hmerged
        dsimp only at hmerged
        refine ⟨fun value hval => hstart value (hmerged ▸ hval), ?_⟩
        have hsame : valueAt ["plugins", "enabled"] (.object (deepMergeObjects start file)) =
            valueAt ["plugins", "enabled"] (.object start) := by
          change (getEntry _ "plugins").bind _ = (getEntry start "plugins").bind _
          rw [hmerged]
        rw [hsame, valueAt_table_missing hentry]
        simp
      | some value =>
        obtain ⟨incoming, rfl⟩ := hfile.plugins_object hentry
        rw [hentry] at hmerged
        dsimp only at hmerged
        have hincoming := storable_of_getEntry hfile.storable hentry
        cases hold : getEntry start "plugins" with
        | none =>
          rw [hold, mergeValue_none] at hmerged
          refine ⟨fun value hval => ⟨incoming, ?_⟩, ?_⟩
          · rw [hmerged] at hval
            cases hval
            rfl
          · rw [valueAt_table hmerged, valueAt_table hentry, valueAt_table_missing hold]
            simp
        | some old =>
          obtain ⟨existing, rfl⟩ := hstart old hold
          rw [hold, mergeValue_object] at hmerged
          refine ⟨fun value hval => ⟨deepMergeObjects existing incoming, ?_⟩, ?_⟩
          · rw [hmerged] at hval
            cases hval
            rfl
          · rw [valueAt_table hmerged, valueAt_table hentry, valueAt_table hold,
              getEntry_deepMergeObjects hincoming.1]
            cases getEntry incoming "enabled" <;> simp
    rw [foldl_cons, ih hrest _ hobject.1, hobject.2, or_assoc, exists_mem_cons_iff]

theorem table_mergeFiles (h : ∀ file ∈ files, AcceptedFile file) :
    (valueAt ["plugins", "enabled"] (.object (mergeFiles files))).isSome = true ↔
      ∃ file ∈ files, (valueAt ["plugins", "enabled"] (.object file)).isSome = true := by
  have hstart : ∀ value, getEntry ([] : JsonObject) "plugins" = some value →
      ∃ plugins, value = .object plugins := by
    intro value hval
    cases hval
  rw [mergeFiles, table_merged h [] hstart]
  exact or_iff_right fun hnil => by cases hnil

theorem mentionAt_table (h : AcceptedFile file)
    (htable : valueAt ["plugins", "enabled"] (.object file) = none) (id : String) :
    mentionAt ["plugins", "enabled", id] (.object file) = none := by
  unfold mentionAt
  rw [mentions_cons_object]
  cases hentry : getEntry file "plugins" with
  | none => rfl
  | some value =>
    obtain ⟨plugins, rfl⟩ := h.plugins_object hentry
    rw [valueAt_table hentry] at htable
    rw [Option.any_some, mentions_cons_object, htable]
    rfl

theorem plugin_iff {plugins : RuntimePluginConfig} (h : ∀ file ∈ files, AcceptedFile file)
    (hmerged : (JsonValue.object (mergeFiles files)).Storable)
    (hplugins : parseOptionalPluginConfig (mergeFiles files) = .ok plugins) (id : String) :
    getEntry plugins.enabledPlugins id =
        (specified (pluginPlaces id) files).bind JsonValue.asBool ↔
      PluginUnshadowed files id := by
  rw [parseOptionalPluginConfig_enabled hmerged hplugins]
  by_cases htable : (valueAt ["plugins", "enabled"] (.object (mergeFiles files))).isSome = true
  · rw [if_pos htable, readAt_mergeFiles h]
    obtain ⟨file, hfile, hsome⟩ := (table_mergeFiles h).mp htable
    refine (or_iff_right ?_).symm
    intro hmissing
    rw [hmissing file hfile] at hsome
    cases hsome
  · have hmissing : ∀ file ∈ files, valueAt ["plugins", "enabled"] (.object file) = none := by
      intro file hfile
      rw [← Option.not_isSome_iff_eq_none]
      exact fun hsome => htable ((table_mergeFiles h).mpr ⟨file, hfile, hsome⟩)
    rw [if_neg htable, readAt_mergeFiles h]
    refine iff_of_true ?_ (.inl hmissing)
    have hskip : specified (pluginPlaces id) files = specified [["enabledPlugins", id]] files :=
      specified_skip fun file hfile => mentionAt_table (h file hfile) (hmissing file hfile) id
    rw [hskip]

theorem storable_mergeFiles (h : ∀ file ∈ files, AcceptedFile file) :
    (JsonValue.object (mergeFiles files)).Storable := by
  suffices hfold : ∀ start : JsonObject, (JsonValue.object start).Storable →
      (JsonValue.object (files.foldl deepMergeObjects start)).Storable from
    hfold [] ⟨List.Pairwise.nil, trivial⟩
  induction files with
  | nil => exact fun start hstart => hstart
  | cons file files ih =>
    intro start hstart
    exact ih (fun f hf => h f (mem_cons_of_mem _ hf)) _
      (storable_deepMergeObjects file start (h file mem_cons_self).storable.2 hstart)

structure ReadsPlaces (merged : JsonObject) (mcp : McpServers) (c : RuntimeFeatureConfig) :
    Prop where
  strings : ∀ s ∈ stringSettings, s.1 c = readAt JsonValue.asStr s.2 merged
  arrays : ∀ s ∈ arraySettings, s.1 c = (readAt stringsOf s.2 merged).getD []
  bools : ∀ s ∈ boolSettings, s.1 c = readAt JsonValue.asBool s.2 merged
  numbers : ∀ s ∈ numberSettings, s.1 c = readAt JsonValue.asI64 s.2 merged
  filesystemMode : c.sandbox.filesystemMode =
    readAt filesystemModeOf ["sandbox", "filesystemMode"] merged
  aliases : ∀ name, getEntry c.aliases name = readAt JsonValue.asStr ["aliases", name] merged
  servers : c.mcp = mcp
  permissionMode : parseOptionalPermissionMode merged = .ok c.permissionMode
  plugins : parseOptionalPluginConfig merged = .ok c.plugins

theorem parseFeatures_ok {merged : JsonObject} {mcp : McpServers} {c : RuntimeFeatureConfig}
    (hmerged : (JsonValue.object merged).Storable) (h : parseFeatures merged mcp = .ok c) :
    ReadsPlaces merged mcp c := by
  obtain ⟨hooks, hhooks, h⟩ := bind_eq_ok h
  obtain ⟨plugins, hplugins, h⟩ := bind_eq_ok h
  obtain ⟨oauth, hoauth, h⟩ := bind_eq_ok h
  obtain ⟨aliases, haliases, h⟩ := bind_eq_ok h
  obtain ⟨mode, hmode, h⟩ := bind_eq_ok h
  obtain ⟨rules, hrules, h⟩ := bind_eq_ok h
  obtain ⟨sandbox, hsandbox, h⟩ := bind_eq_ok h
  obtain ⟨fallbacks, hfallbacks, h⟩ := bind_eq_ok h
  obtain ⟨roots, hroots, h⟩ := bind_eq_ok h
  cases h
  obtain ⟨hpre, hpost, hfailure⟩ := parseOptionalHooksConfig_ok hhooks
  obtain ⟨hdirectories, hinstall, hregistry, hbundled, htokens⟩ :=
    parseOptionalPluginConfig_ok hplugins
  obtain ⟨hclient, hauthorize, htoken, hport, hredirect, hscopes⟩ :=
    parseOptionalOauthConfig_ok hoauth
  obtain ⟨hallow, hdeny, hask⟩ := parseOptionalPermissionRules_ok hrules
  obtain ⟨henabled, hrestrictions, hisolation, hfilesystem, hmounts⟩ :=
    parseOptionalSandboxConfig_ok hsandbox
  obtain ⟨hprimary, hchain⟩ := parseOptionalProviderFallbacks_ok hfallbacks
  have hmodel : parseOptionalModel merged = readAt JsonValue.asStr ["model"] merged :=
    (readAt_key asStr_readsLeaves).symm
  refine ⟨?_, ?_, ?_, ?_, hfilesystem, ?_, rfl, hmode, hplugins⟩
  · simp only [stringSettings, forall_mem_cons]
    exact ⟨hmodel, hinstall, hregistry, hbundled, hprimary, hclient, hauthorize, htoken,
      hredirect, forall_mem_nil _⟩
  · simp only [arraySettings, forall_mem_cons]
    exact ⟨hpre, hpost, hfailure, hallow, hdeny, hask, hdirectories, hmounts, hchain,
      parseOptionalTrustedRoots_ok hroots, hscopes, forall_mem_nil _⟩
  · simp only [boolSettings, forall_mem_cons]
    exact ⟨henabled, hrestrictions, hisolation, forall_mem_nil _⟩
  · simp only [numberSettings, forall_mem_cons]
    exact ⟨htokens, hport, forall_mem_nil _⟩
  · intro name
    obtain ⟨map, hmap, hres⟩ := bind_eq_ok haliases
    cases hres
    refine optionalStringMap_ok ?_ hmap name
    intro entries hentry
    exact (storable_of_getEntry hmerged hentry).1

theorem load_ok {loader : ConfigLoader} {config : RuntimeConfig}
    (h : loader.load read = .ok config) :
    (∀ file ∈ (loadedFiles read loader.discover).map Prod.snd, AcceptedFile file) ∧
    config.merged = mergeFiles ((loadedFiles read loader.discover).map Prod.snd) ∧
    (∃ mcp, ReadsPlaces config.merged mcp config.featureConfig ∧
      ∀ name, getEntry mcp name = highest (serverOf name) (loadedFiles read loader.discover)) := by
  obtain ⟨state, hstate, hfeatures⟩ := bind_eq_ok h
  obtain ⟨features, hparse, hconfig⟩ := bind_eq_ok hfeatures
  cases hconfig
  obtain ⟨hmerged, haccepted, hservers⟩ := loadEntries_ok hstate
  have hfiles : ∀ file ∈ (loadedFiles read loader.discover).map Prod.snd, AcceptedFile file :=
    forall_mem_map.mpr haccepted
  refine ⟨hfiles, hmerged, state.mcpServers, ?_, ?_⟩
  · refine parseFeatures_ok ?_ hparse
    rw [hmerged]
    exact storable_mergeFiles hfiles
  · intro name
    rw [hservers name]
    exact Option.or_none

/-- A project in `/work` of the user in `/home`. -/
def exampleLoader : ConfigLoader := ⟨PathBuf.ofText "/work", PathBuf.ofText "/home/.claw"⟩

/-- The user's old file has the deprecated spelling, the local file the current one. -/
def shadowingFiles (path : PathBuf) : ReadOutcome :=
  if path.names = ["home", ".claw.json"] then
    .contents "\x7b\"permissionMode\":\"plan\"\x7d".toList
  else if path.names = ["work", ".claw", "settings.local.json"] then
    .contents "\x7b\"permissions\":\x7b\"defaultMode\":\"dontAsk\"\x7d\x7d".toList
  else .notFound

end DbClinic.Runtime.Config
