import DbClinic.Runtime.ConfigPrecedence

/-!
A load after the deprecated table of plugins in the user's settings file was
replaced. The other keys decide whether the files are accepted, and they are
the same; so the load succeeds again, and only the states of the plugins can
differ.
-/

namespace DbClinic.Runtime.Config

open Outcomes ConfigLoader List

def FineEntry (fields : List FieldSpec) (key : String) (value : JsonValue) : Prop :=
  match fields.find? fun f => f.name = key with
  | some spec => spec.expected.accepts value = true
  | none => (deprecatedFields.any fun d => d.name = key) = true

variable {object : JsonObject} {read read' : PathBuf → ReadOutcome} {key pathDisplay : String}
variable {source : List Char} {fields : List FieldSpec} {path : PathBuf}
variable {entries : List ConfigEntry}

theorem entryError_eq_none_iff {path : String} {value : JsonValue} :
    entryError fields path source pathDisplay key value = none ↔ FineEntry fields key value := by
  unfold entryError FineEntry
  dsimp only
  cases fields.find? fun f => f.name = key with
  | some spec =>
    dsimp only
    split
    · rename_i haccepts
      exact iff_of_true rfl haccepts
    · rename_i hrefused
      exact iff_of_false (fun h => by cases h) hrefused
  | none =>
    dsimp only
    split
    · rename_i hdeprecated
      exact iff_of_true rfl hdeprecated
    · rename_i hunknown
      exact iff_of_false (fun h => by cases h) hunknown

theorem validateObjectKeys_ok_iff {path : String} :
    (validateObjectKeys object fields path source pathDisplay).errors = [] ↔
      ∀ e ∈ object, FineEntry fields e.1 e.2 := by
  unfold validateObjectKeys
  rw [filterMap_eq_nil_iff]
  exact forall₂_congr fun e _ => entryError_eq_none_iff

/-- The checks that a file goes through, whatever was loaded before it. -/
structure Addable (entry : ConfigEntry) (object : JsonObject) : Prop where
  valid : ∀ source, (validateConfigFile object source entry.path).errors = []
  hooks : validateOptionalHooksConfig object entry.path = .ok ()
  servers : ∀ target, ∃ result,
    mergeMcpServers target entry.source object entry.path = .ok result

variable {context : String} {target result : McpServers} {source' : List Char}
variable {object' start table merged merged' : JsonObject} {entry : ConfigEntry}
variable {loader : ConfigLoader}

theorem insertMcpServers_exists {source : ConfigSource} {servers : JsonObject}
    (h : insertMcpServers source context target servers = .ok result) (other : McpServers) :
    ∃ result', insertMcpServers source context other servers = .ok result' := by
  induction servers generalizing target other with
  | nil => exact ⟨other, rfl⟩
  | cons e servers ih =>
    obtain ⟨config, hconfig, hmore⟩ := bind_eq_ok h
    obtain ⟨result', hres⟩ := ih hmore (insertEntry e.1 ⟨source, config⟩ other)
    refine ⟨result', ?_⟩
    unfold insertMcpServers
    rw [hconfig]
    exact hres

theorem mergeMcpServers_exists {source : ConfigSource}
    (h : mergeMcpServers target source object path = .ok result) (other : McpServers) :
    ∃ result', mergeMcpServers other source object path = .ok result' := by
  unfold mergeMcpServers at h ⊢
  split at h
  · exact ⟨other, rfl⟩
  · obtain ⟨servers, hservers, hinsert⟩ := bind_eq_ok h
    obtain ⟨result', hres⟩ := insertMcpServers_exists hinsert other
    refine ⟨result', ?_⟩
    dsimp only at hservers ⊢
    rw [hservers]
    exact hres

theorem validateNested_source
    (h : (validateNested object key fields source pathDisplay).errors = []) :
    (validateNested object key fields source' pathDisplay).errors = [] := by
  unfold validateNested at h ⊢
  split at h
  · exact h
  · exact validateObjectKeys_ok_iff.mpr (validateObjectKeys_ok_iff.mp h)

theorem validateConfigFile_replaced (h : (validateConfigFile object source path).errors = [])
    (htop : ∀ e ∈ object', e ∈ object ∨ FineEntry topLevelFields e.1 e.2)
    (hsame : ∀ key, key ≠ "enabledPlugins" → getEntry object' key = getEntry object key) :
    (validateConfigFile object' source' path).errors = [] := by
  have hnested : ∀ {key : String} {fields : List FieldSpec}, key ≠ "enabledPlugins" →
      (validateNested object key fields source path.display).errors = [] →
        (validateNested object' key fields source' path.display).errors = [] := by
    intro key fields hkey hold
    have hold' : (validateNested object key fields source' path.display).errors = [] :=
      validateNested_source hold
    unfold validateNested at hold' ⊢
    rw [hsame key hkey]
    exact hold'
  simp only [validateConfigFile, ValidationResult.merge, append_eq_nil_iff] at h ⊢
  obtain ⟨⟨⟨⟨⟨⟨hkeys, _⟩, hhooks⟩, hpermissions⟩, hplugins⟩, hsandbox⟩, hoauth⟩ := h
  refine ⟨⟨⟨⟨⟨⟨?_, trivial⟩, hnested (by decide) hhooks⟩, hnested (by decide) hpermissions⟩,
    hnested (by decide) hplugins⟩, hnested (by decide) hsandbox⟩, hnested (by decide) hoauth⟩
  rw [validateObjectKeys_ok_iff] at hkeys ⊢
  intro e he
  rcases htop e he with hold | hfine
  · exact hkeys e hold
  · exact hfine

namespace Addable

variable {entry : ConfigEntry} {object object' : JsonObject}

theorem nil : Addable entry [] :=
  ⟨fun _ => rfl, rfl, fun target => ⟨target, rfl⟩⟩

theorem of_addFile {state next : LoadState} {parsed : ParsedConfigFile}
    (h : addFile state entry parsed = .ok next) : Addable entry parsed.object := by
  unfold addFile at h
  dsimp only at h
  split at h
  · cases h
  · rename_i hvalid
    obtain ⟨_, hhooks, hservers⟩ := bind_eq_ok h
    obtain ⟨servers, hmerge, _⟩ := bind_eq_ok hservers
    refine ⟨fun source => ?_, hhooks, fun target => mergeMcpServers_exists hmerge target⟩
    exact validateConfigFile_replaced hvalid (fun e he => .inl he) fun _ _ => rfl

theorem addFile (h : Addable entry object) (state : LoadState) (source : List Char) :
    ∃ next, ConfigLoader.addFile state entry ⟨object, source⟩ = .ok next := by
  obtain ⟨servers, hservers⟩ := h.servers state.mcpServers
  unfold ConfigLoader.addFile
  dsimp only
  rw [h.valid source]
  dsimp only
  rw [h.hooks, hservers]
  exact ⟨_, rfl⟩

theorem replace (h : Addable entry object)
    (htop : ∀ e ∈ object', e ∈ object ∨ FineEntry topLevelFields e.1 e.2)
    (hsame : ∀ key, key ≠ "enabledPlugins" → getEntry object' key = getEntry object key) :
    Addable entry object' := by
  refine ⟨fun source => validateConfigFile_replaced (h.valid source) htop hsame, ?_, ?_⟩
  · have hhooks := h.hooks
    unfold validateOptionalHooksConfig parseOptionalHooksConfigObject at hhooks ⊢
    rw [hsame "hooks" (by decide)]
    exact hhooks
  · intro target
    obtain ⟨result, hres⟩ := h.servers target
    refine ⟨result, ?_⟩
    unfold mergeMcpServers at hres ⊢
    rw [hsame "mcpServers" (by decide)]
    exact hres

end Addable

def BoolTable (table : JsonObject) : Prop :=
  ∀ key value, getEntry table key = some value → ∃ enabled, value = .bool enabled

/-- One file before and after the replacement of its table: another file is the
same, and the file with the table is not refused. -/
inductive Replaced (entry : ConfigEntry) :
    ConfigResult (Option ParsedConfigFile) → ConfigResult (Option ParsedConfigFile) → Prop where
  | same (result : ConfigResult (Option ParsedConfigFile)) : Replaced entry result result
  | refused (e : ConfigError) (result : ConfigResult (Option ParsedConfigFile)) :
      Replaced entry (.error e) result
  | added (parsed' : ParsedConfigFile) (haddable : Addable entry parsed'.object) :
      Replaced entry (.ok none) (.ok (some parsed'))
  | table (parsed parsed' : ParsedConfigFile)
      (haddable : Addable entry parsed.object → Addable entry parsed'.object) :
      Replaced entry (.ok (some parsed)) (.ok (some parsed'))

theorem loadEntries_replaced
    (hreplaced : ∀ entry ∈ entries, Replaced entry (readOptionalJsonObject read entry.path)
      (readOptionalJsonObject read' entry.path)) {state final : LoadState}
    (h : loadEntries read state entries = .ok final) (state' : LoadState) :
    ∃ final', loadEntries read' state' entries = .ok final' := by
  induction entries generalizing state state' with
  | nil => exact ⟨state', rfl⟩
  | cons entry entries ih =>
    have hrest := fun e he => hreplaced e (mem_cons_of_mem _ he)
    obtain ⟨_, hformat, hread⟩ := bind_eq_ok h
    obtain ⟨parsed, hparsed, hmore⟩ := bind_eq_ok hread
    have hentry := hreplaced entry mem_cons_self
    rw [hparsed] at hentry
    have hnone : readOptionalJsonObject read' entry.path = .ok none →
        loadEntries read' state' (entry :: entries) = loadEntries read' state' entries := by
      intro hres
      rw [loadEntries, hformat, hres]
      rfl
    have hsome : ∀ {parsed : ParsedConfigFile},
        readOptionalJsonObject read' entry.path = .ok (some parsed) →
        loadEntries read' state' (entry :: entries) =
          ConfigLoader.addFile state' entry parsed >>= (loadEntries read' · entries) := by
      intro parsed hres
      rw [loadEntries, hformat, hres]
      rfl
    have hadd : ∀ {parsed' : ParsedConfigFile} {middle : LoadState},
        Addable entry parsed'.object → loadEntries read middle entries = .ok final →
        readOptionalJsonObject read' entry.path = .ok (some parsed') →
        ∃ final', loadEntries read' state' (entry :: entries) = .ok final' := by
      intro parsed' middle haddable hmiddle hres
      obtain ⟨next, hnext⟩ := haddable.addFile state' parsed'.source
      obtain ⟨final', hfinal⟩ := ih hrest hmiddle next
      refine ⟨final', (hsome hres).trans ?_⟩
      rw [hnext]
      exact hfinal
    generalize hnew : readOptionalJsonObject read' entry.path = result at hentry
    cases hentry with
    | same =>
      cases parsed with
      | none =>
        obtain ⟨final', hfinal⟩ := ih hrest hmore state'
        exact ⟨final', (hnone hnew).trans hfinal⟩
      | some parsed =>
        obtain ⟨next, hnext, hlater⟩ := bind_eq_ok hmore
        exact hadd (Addable.of_addFile hnext) hlater hnew
    | added parsed' haddable => exact hadd haddable hmore hnew
    | table parsed parsed' haddable =>
      obtain ⟨next, hnext, hlater⟩ := bind_eq_ok hmore
      exact hadd (haddable (Addable.of_addFile hnext)) hlater hnew

/-- The files of two loads, entry by entry: at most the table of plugins differs. -/
def SameButTable (files files' : ConfigEntry → JsonObject) (entries : List ConfigEntry) : Prop :=
  ∀ entry ∈ entries, ∀ key, key ≠ "enabledPlugins" →
    getEntry (files' entry) key = getEntry (files entry) key

/-- The object of a file, the empty one for a file that counts as missing. -/
def objectOf (read : PathBuf → ReadOutcome) (entry : ConfigEntry) : JsonObject :=
  match readOptionalJsonObject read entry.path with
  | .ok (some parsed) => parsed.object
  | _ => []

theorem objectOf_storable (read : PathBuf → ReadOutcome) (entry : ConfigEntry) :
    (JsonValue.object (objectOf read entry)).Storable := by
  unfold objectOf
  split
  · rename_i parsed hparsed
    exact readOptionalJsonObject_storable hparsed
  · exact ⟨List.Pairwise.nil, trivial⟩

theorem foldl_loadedFiles (read : PathBuf → ReadOutcome) (entries : List ConfigEntry)
    (start : JsonObject) :
    ((loadedFiles read entries).map Prod.snd).foldl deepMergeObjects start =
      (entries.map (objectOf read)).foldl deepMergeObjects start := by
  induction entries generalizing start with
  | nil => rfl
  | cons entry entries ih =>
    have hskip : ∀ result, readOptionalJsonObject read entry.path = result →
        (∀ parsed, result ≠ .ok (some parsed)) →
        loadedFiles read (entry :: entries) = loadedFiles read entries ∧
          objectOf read entry = [] := by
      intro result hres hnone
      unfold loadedFiles objectOf
      rw [filterMap_cons, hres]
      cases result with
      | error e => exact ⟨rfl, rfl⟩
      | ok parsed =>
        cases parsed with
        | none => exact ⟨rfl, rfl⟩
        | some parsed => exact absurd rfl (hnone parsed)
    rw [map_cons, foldl_cons]
    cases hread : readOptionalJsonObject read entry.path with
    | error e =>
      obtain ⟨hfiles, hobject⟩ := hskip _ hread fun _ h => by cases h
      rw [hfiles, hobject]
      exact ih start
    | ok parsed =>
      cases parsed with
      | none =>
        obtain ⟨hfiles, hobject⟩ := hskip _ hread fun _ h => by cases h
        rw [hfiles, hobject]
        exact ih start
      | some parsed =>
        have hobject : objectOf read entry = parsed.object := by
          unfold objectOf
          rw [hread]
        have hfiles : loadedFiles read (entry :: entries) =
            (entry, parsed.object) :: loadedFiles read entries := by
          unfold loadedFiles
          rw [filterMap_cons, hread]
        rw [hfiles, hobject, map_cons, foldl_cons]
        exact ih _

theorem getEntry_merged_same {files files' : ConfigEntry → JsonObject}
    (hordered : ∀ entry, KeyOrdered (files entry)) (hordered' : ∀ entry, KeyOrdered (files' entry))
    (hsame : SameButTable files files' entries) {start' : JsonObject}
    (hstart : ∀ key, key ≠ "enabledPlugins" → getEntry start' key = getEntry start key)
    (hkey : key ≠ "enabledPlugins") :
    getEntry ((entries.map files').foldl deepMergeObjects start') key =
      getEntry ((entries.map files).foldl deepMergeObjects start) key := by
  induction entries generalizing start start' with
  | nil => exact hstart key hkey
  | cons entry entries ih =>
    refine ih (fun e he => hsame e (mem_cons_of_mem _ he)) ?_
    intro k hk
    rw [getEntry_deepMergeObjects (hordered' entry), getEntry_deepMergeObjects (hordered entry),
      hsame entry mem_cons_self k hk, hstart k hk]

theorem boolTable_merged {files : List JsonObject}
    (h : ∀ file ∈ files, (JsonValue.object file).Storable ∧
      ∀ value, getEntry file "enabledPlugins" = some value →
        ∃ table, value = .object table ∧ BoolTable table)
    (hstart : ∀ value, getEntry start "enabledPlugins" = some value →
      ∃ table, value = .object table ∧ BoolTable table) :
    ∀ value, getEntry (files.foldl deepMergeObjects start) "enabledPlugins" = some value →
      ∃ table, value = .object table ∧ BoolTable table := by
  induction files generalizing start with
  | nil => exact hstart
  | cons file files ih =>
    obtain ⟨hstorable, htable⟩ := h file mem_cons_self
    refine ih (fun f hf => h f (mem_cons_of_mem _ hf)) ?_
    intro value hval
    rw [getEntry_deepMergeObjects hstorable.1] at hval
    cases hincoming : getEntry file "enabledPlugins" with
    | none =>
      rw [hincoming] at hval
      exact hstart value hval
    | some incoming =>
      obtain ⟨table, rfl, hbools⟩ := htable incoming hincoming
      rw [hincoming] at hval
      dsimp only at hval
      cases hold : getEntry start "enabledPlugins" with
      | none =>
        rw [hold, mergeValue_none] at hval
        cases hval
        exact ⟨table, rfl, hbools⟩
      | some existing =>
        obtain ⟨old, rfl, holdbools⟩ := hstart existing hold
        rw [hold, mergeValue_object] at hval
        cases hval
        refine ⟨_, rfl, ?_⟩
        intro key value hentry
        have htableStorable := storable_of_getEntry hstorable hincoming
        rw [getEntry_deepMergeObjects htableStorable.1] at hentry
        cases hkey : getEntry table key with
        | none =>
          rw [hkey] at hentry
          exact holdbools key value hentry
        | some new =>
          -- A boolean takes the place of whatever the key had.
          obtain ⟨enabled, rfl⟩ := hbools key new hkey
          rw [hkey] at hentry
          cases hentry
          exact ⟨enabled, rfl⟩

theorem parseBoolMap_exists (hordered : KeyOrdered table) (h : BoolTable table) (context : String) :
    ∃ result, parseBoolMap (.object table) context = .ok result := by
  change ∃ result, (table.mapM _ >>= fun entries => Except.ok (entriesOf entries)) = Except.ok result
  refine bind_ok (mapM_ok fun e he => ?_) fun entries => ⟨entriesOf entries, rfl⟩
  obtain ⟨enabled, henabled⟩ := h e.1 e.2 (getEntry_of_mem hordered he)
  rw [henabled]
  exact ⟨(e.1, enabled), rfl⟩

theorem replaceBoolMap_exists {current result : List (String × Bool)}
    (h : replaceBoolMap current object key context = .ok result) (other : List (String × Bool)) :
    ∃ result', replaceBoolMap other object key context = .ok result' := by
  unfold replaceBoolMap at h ⊢
  split at h
  · exact ⟨other, rfl⟩
  · exact ⟨result, h⟩

theorem parseOptionalPluginConfig_replaced {c : RuntimePluginConfig}
    (hstorable : (JsonValue.object merged').Storable)
    (hplugins : getEntry merged' "plugins" = getEntry merged "plugins")
    (htable : ∀ value, getEntry merged' "enabledPlugins" = some value →
      ∃ table, value = .object table ∧ BoolTable table)
    (h : parseOptionalPluginConfig merged = .ok c) :
    ∃ c', parseOptionalPluginConfig merged' = .ok c' := by
  obtain ⟨deprecated', hdeprecated'⟩ : ∃ result, replaceBoolMap [] merged' "enabledPlugins"
      "merged settings.enabledPlugins" = .ok result := by
    unfold replaceBoolMap
    cases hentry : getEntry merged' "enabledPlugins" with
    | none => exact ⟨[], rfl⟩
    | some value =>
      obtain ⟨table, rfl, hbools⟩ := htable value hentry
      exact parseBoolMap_exists (storable_of_getEntry hstorable hentry).1 hbools _
  obtain ⟨deprecated, _, h⟩ := bind_eq_ok h
  unfold parseOptionalPluginConfig
  rw [hdeprecated', ok_bind, hplugins]
  split at h
  · exact ⟨_, rfl⟩
  · obtain ⟨plugins, hobject, h⟩ := bind_eq_ok h
    obtain ⟨current, hcur, h⟩ := bind_eq_ok h
    obtain ⟨directories, hdirectories, h⟩ := bind_eq_ok h
    obtain ⟨install, hinstall, h⟩ := bind_eq_ok h
    obtain ⟨registry, hregistry, h⟩ := bind_eq_ok h
    obtain ⟨bundled, hbundled, h⟩ := bind_eq_ok h
    obtain ⟨tokens, htokens, h⟩ := bind_eq_ok h
    obtain ⟨current', hcur'⟩ := replaceBoolMap_exists hcur deprecated'
    refine ⟨⟨current', directories.getD [], install, registry, bundled, tokens⟩, ?_⟩
    simp only [hobject, hcur', hdirectories, hinstall, hregistry, hbundled, htokens, ok_bind]

theorem parseFeatures_replaced {mcp : McpServers} {c : RuntimeFeatureConfig}
    (hstorable : (JsonValue.object merged').Storable)
    (hsame : ∀ key, key ≠ "enabledPlugins" → getEntry merged' key = getEntry merged key)
    (htable : ∀ value, getEntry merged' "enabledPlugins" = some value →
      ∃ table, value = .object table ∧ BoolTable table) (h : parseFeatures merged mcp = .ok c)
    (mcp' : McpServers) :
    ∃ c', parseFeatures merged' mcp' = .ok c' ∧
      parseOptionalPluginConfig merged' = .ok c'.plugins := by
  obtain ⟨hooks, hhooks, h⟩ := bind_eq_ok h
  obtain ⟨plugins, hplugins, h⟩ := bind_eq_ok h
  obtain ⟨oauth, hoauth, h⟩ := bind_eq_ok h
  obtain ⟨aliases, haliases, h⟩ := bind_eq_ok h
  obtain ⟨mode, hmode, h⟩ := bind_eq_ok h
  obtain ⟨rules, hrules, h⟩ := bind_eq_ok h
  obtain ⟨sandbox, hsandbox, h⟩ := bind_eq_ok h
  obtain ⟨fallbacks, hfallbacks, h⟩ := bind_eq_ok h
  obtain ⟨roots, hroots, _⟩ := bind_eq_ok h
  obtain ⟨plugins', hplugins'⟩ :=
    parseOptionalPluginConfig_replaced hstorable (hsame "plugins" (by decide)) htable hplugins
  -- The other functions look at keys that have not changed.
  have hhooks' : parseOptionalHooksConfig merged' = .ok hooks := by
    unfold parseOptionalHooksConfig parseOptionalHooksConfigObject at hhooks ⊢
    rw [hsame "hooks" (by decide)]
    exact hhooks
  have hoauth' : parseOptionalOauthConfig merged' "merged settings.oauth" = .ok oauth := by
    unfold parseOptionalOauthConfig at hoauth ⊢
    rw [hsame "oauth" (by decide)]
    exact hoauth
  have haliases' : parseOptionalAliases merged' = .ok aliases := by
    unfold parseOptionalAliases optionalStringMap optionalField at haliases ⊢
    rw [hsame "aliases" (by decide)]
    exact haliases
  have hmode' : parseOptionalPermissionMode merged' = .ok mode := by
    unfold parseOptionalPermissionMode at hmode ⊢
    rw [hsame "permissionMode" (by decide), hsame "permissions" (by decide)]
    exact hmode
  have hrules' : parseOptionalPermissionRules merged' = .ok rules := by
    unfold parseOptionalPermissionRules at hrules ⊢
    rw [hsame "permissions" (by decide)]
    exact hrules
  have hsandbox' : parseOptionalSandboxConfig merged' = .ok sandbox := by
    unfold parseOptionalSandboxConfig at hsandbox ⊢
    rw [hsame "sandbox" (by decide)]
    exact hsandbox
  have hfallbacks' : parseOptionalProviderFallbacks merged' = .ok fallbacks := by
    unfold parseOptionalProviderFallbacks at hfallbacks ⊢
    rw [hsame "providerFallbacks" (by decide)]
    exact hfallbacks
  have hroots' : parseOptionalTrustedRoots merged' = .ok roots := by
    unfold parseOptionalTrustedRoots optionalStringArray optionalField at hroots ⊢
    rw [hsame "trustedRoots" (by decide)]
    exact hroots
  refine ⟨⟨hooks, plugins', mcp', oauth, parseOptionalModel merged', aliases, mode, rules, sandbox,
    fallbacks, roots⟩, ?_, hplugins'⟩
  simp only [parseFeatures, hhooks', hplugins', hoauth', haliases', hmode', hrules', hsandbox',
    hfallbacks', hroots', ok_bind]

theorem mem_loadedFiles :
    object ∈ (loadedFiles read entries).map Prod.snd ↔
      ∃ entry ∈ entries, ∃ source,
        readOptionalJsonObject read entry.path = .ok (some ⟨object, source⟩) := by
  constructor
  · intro h
    obtain ⟨file, hfile, rfl⟩ := mem_map.mp h
    obtain ⟨entry, hentry, hread⟩ := mem_filterMap.mp hfile
    split at hread
    · rename_i parsed hparsed
      cases hread
      exact ⟨entry, hentry, parsed.source, hparsed⟩
    · cases hread
  · rintro ⟨entry, hentry, source, hread⟩
    refine mem_map.mpr ⟨(entry, object), mem_filterMap.mpr ⟨entry, hentry, ?_⟩, rfl⟩
    rw [hread]

theorem highest_of_only {α β : Type} {answer : α → Option β} {items : List α} {a : α}
    (hmem : a ∈ items) (h : ∀ b ∈ items, b = a ∨ answer b = none) :
    highest answer items = answer a := by
  cases hanswer : answer a with
  | none =>
    refine highest_eq_none_iff.mpr fun b hb => ?_
    rcases h b hb with rfl | hnone
    · exact hanswer
    · exact hnone
  | some c =>
    cases hhighest : highest answer items with
    | none =>
      rw [highest_eq_none_iff.mp hhighest a hmem] at hanswer
      cases hanswer
    | some d =>
      obtain ⟨b, hb, hd⟩ := highest_eq_some hhighest
      rcases h b hb with rfl | hnone
      · rw [hanswer] at hd
        exact hd.symm
      · rw [hnone] at hd
        cases hd

def settingsPath (loader : ConfigLoader) : PathBuf := loader.configHome.push "settings.json"

/-- No file but the user's settings has a table of plugins. -/
def PlainOthers (loader : ConfigLoader) (read : PathBuf → ReadOutcome) : Prop :=
  ∀ entry ∈ loader.discover, entry.path ≠ settingsPath loader →
    getEntry (objectOf read entry) "plugins" = none ∧
      getEntry (objectOf read entry) "enabledPlugins" = none

def settingsObject (loader : ConfigLoader) (read : PathBuf → ReadOutcome) : JsonObject :=
  objectOf read ⟨.user, settingsPath loader⟩

theorem objectOf_path {entry' : ConfigEntry} (h : entry.path = entry'.path) :
    objectOf read entry = objectOf read entry' := by
  unfold objectOf
  rw [h]

theorem readOptionalJsonObject_congr (h : read' path = read path) :
    readOptionalJsonObject read' path = readOptionalJsonObject read path := by
  unfold readOptionalJsonObject
  rw [h]

theorem objectOf_settingsPath (h : entry.path = settingsPath loader) :
    objectOf read entry = settingsObject loader read := objectOf_path h

section Plain

variable {loader : ConfigLoader} {read : PathBuf → ReadOutcome} {config : RuntimeConfig}

theorem settings_discovered : ⟨.user, settingsPath loader⟩ ∈ loader.discover :=
  mem_cons_of_mem _ mem_cons_self

theorem file_tables (hplain : PlainOthers loader read) (hentry : entry ∈ loader.discover) :
    objectOf read entry = settingsObject loader read ∨
      getEntry (objectOf read entry) "plugins" = none ∧
        getEntry (objectOf read entry) "enabledPlugins" = none := by
  by_cases hpath : entry.path = settingsPath loader
  · exact .inl (objectOf_settingsPath hpath)
  · exact .inr (hplain entry hentry hpath)

theorem loaded_tables (hplain : PlainOthers loader read) {file : JsonObject}
    (hfile : file ∈ (loadedFiles read loader.discover).map Prod.snd) :
    file = settingsObject loader read ∨
      getEntry file "plugins" = none ∧ getEntry file "enabledPlugins" = none := by
  obtain ⟨entry, hentry, source, hread⟩ := mem_loadedFiles.mp hfile
  have hobject : objectOf read entry = file := by
    unfold objectOf
    rw [hread]
  rw [← hobject]
  exact file_tables hplain hentry

theorem settings_loaded (loader : ConfigLoader) (read : PathBuf → ReadOutcome) :
    settingsObject loader read ∈ (loadedFiles read loader.discover).map Prod.snd ∨
      settingsObject loader read = [] := by
  unfold settingsObject objectOf
  dsimp only
  split
  · rename_i parsed hparsed
    exact .inl (mem_loadedFiles.mpr ⟨_, settings_discovered, parsed.source, hparsed⟩)
  · exact .inr rfl

theorem loaded_state (h : loader.load read = .ok config) (hplain : PlainOthers loader read)
    (hcur : valueAt ["plugins", "enabled"] (.object (settingsObject loader read)) = none)
    (id : String) :
    getEntry config.featureConfig.plugins.enabledPlugins id =
      readAt JsonValue.asBool ["enabledPlugins", id] (settingsObject loader read) := by
  obtain ⟨hfiles, hmerged, _, hplaces, _⟩ := load_ok h
  have hnone : ∀ file ∈ (loadedFiles read loader.discover).map Prod.snd,
      valueAt ["plugins", "enabled"] (.object file) = none := by
    intro file hfile
    rcases loaded_tables hplain hfile with rfl | ⟨hplugins, _⟩
    · exact hcur
    · exact valueAt_table_missing hplugins
  have hmissing : ¬ (valueAt ["plugins", "enabled"] (.object config.merged)).isSome = true := by
    rw [hmerged, table_mergeFiles hfiles]
    rintro ⟨file, hfile, hsome⟩
    rw [hnone file hfile] at hsome
    cases hsome
  have hother : ∀ file ∈ (loadedFiles read loader.discover).map Prod.snd,
      file = settingsObject loader read ∨
        mentionAt ["enabledPlugins", id] (.object file) = none := by
    intro file hfile
    refine (loaded_tables hplain hfile).imp_right fun htables => ?_
    unfold mentionAt
    rw [mentions_cons_object, htables.2]
    rfl
  have hstorable : (JsonValue.object config.merged).Storable := by
    rw [hmerged]
    exact storable_mergeFiles hfiles
  rw [parseOptionalPluginConfig_enabled hstorable hplaces.plugins, if_neg hmissing, hmerged,
    readAt_mergeFiles hfiles]
  unfold specified
  simp only [findSome?_singleton]
  have hmention : highest (fun file => mentionAt ["enabledPlugins", id] (.object file))
      ((loadedFiles read loader.discover).map Prod.snd) =
        mentionAt ["enabledPlugins", id] (.object (settingsObject loader read)) := by
    rcases settings_loaded loader read with hmem | hempty
    · exact highest_of_only hmem hother
    · rw [hempty]
      refine highest_eq_none_iff.mpr fun file hfile => ?_
      rcases hother file hfile with rfl | hnone
      · rw [hempty]
        rfl
      · exact hnone
  rw [hmention]
  unfold readAt mentionAt
  split
  · rfl
  · rename_i hmentions
    rw [leafAt_of_not_mentions (Bool.eq_false_iff.mpr hmentions)]
    rfl

theorem table_survives {files : List JsonObject} (hobject : (JsonValue.object object).Storable)
    (hentry : getEntry object "enabledPlugins" = some (.object table))
    (hfiles : ∀ file ∈ files, (JsonValue.object file).Storable ∧
      (file = object ∨ getEntry file "enabledPlugins" = none))
    (h : object ∈ files ∨ ∃ merged, getEntry start "enabledPlugins" = some (.object merged) ∧
      ∀ id x, getEntry table id = some x → ∃ old, getEntry merged id = some (mergeValue old x)) :
    ∃ merged, getEntry (files.foldl deepMergeObjects start) "enabledPlugins" =
        some (.object merged) ∧
      ∀ id x, getEntry table id = some x → ∃ old, getEntry merged id = some (mergeValue old x) := by
  induction files generalizing start with
  | nil => exact h.resolve_left (not_mem_nil)
  | cons file files ih =>
    obtain ⟨hstorable, hcases⟩ := hfiles file mem_cons_self
    refine ih (fun f hf => hfiles f (mem_cons_of_mem _ hf)) ?_
    have hmerged := getEntry_deepMergeObjects hstorable.1 start "enabledPlugins"
    rcases hcases with rfl | hnone
    · -- The table is merged into whatever was there.
      right
      rw [hentry] at hmerged
      dsimp only at hmerged
      have htable := (storable_of_getEntry hobject hentry).1
      have hplain : ∀ id x, getEntry table id = some x →
          ∃ old, getEntry table id = some (mergeValue old x) :=
        fun id x hx => ⟨none, by rw [mergeValue_none, hx]⟩
      cases hold : getEntry start "enabledPlugins" with
      | none =>
        rw [hold, mergeValue_none] at hmerged
        exact ⟨table, hmerged, hplain⟩
      | some old =>
        cases holdObject : old.asObject with
        | none =>
          rw [hold, mergeValue_over_leaf holdObject] at hmerged
          exact ⟨table, hmerged, hplain⟩
        | some existing =>
          rw [hold, asObject_eq_some.mp holdObject, mergeValue_object] at hmerged
          refine ⟨_, hmerged, ?_⟩
          intro id x hx
          rw [getEntry_deepMergeObjects htable, hx]
          exact ⟨_, rfl⟩
    · rw [hnone] at hmerged
      dsimp only at hmerged
      rcases h with hmem | hthere
      · rcases mem_cons.mp hmem with rfl | hlater
        · rw [hentry] at hnone
          cases hnone
        · exact .inl hlater
      · rw [hmerged]
        exact .inr hthere

theorem settings_table (h : loader.load read = .ok config) (hplain : PlainOthers loader read)
    {value : JsonValue}
    (hentry : getEntry (settingsObject loader read) "enabledPlugins" = some value) :
    ∃ table, value = .object table ∧ BoolTable table := by
  obtain ⟨hfiles, hmerged, _, hplaces, _⟩ := load_ok h
  rcases settings_loaded loader read with hmem | hempty
  · have haccepted := hfiles _ hmem
    obtain ⟨table, rfl⟩ := accepts_object (haccepted.topLevel hentry rfl)
    refine ⟨table, rfl, ?_⟩
    obtain ⟨merged, hmergedEntry, hkept⟩ : ∃ merged,
        getEntry (mergeFiles ((loadedFiles read loader.discover).map Prod.snd)) "enabledPlugins" =
          some (.object merged) ∧
        ∀ id x, getEntry table id = some x → ∃ old, getEntry merged id = some (mergeValue old x) :=
      table_survives haccepted.storable hentry
        (fun file hfile => ⟨(hfiles file hfile).storable,
          (loaded_tables hplain hfile).imp_right And.right⟩) (.inl hmem)
    have hbools : BoolTable merged := by
      obtain ⟨deprecated, hdeprecated, _⟩ := bind_eq_ok hplaces.plugins
      unfold replaceBoolMap at hdeprecated
      rw [hmerged, hmergedEntry] at hdeprecated
      obtain ⟨_, hobject, hmap⟩ := bind_eq_ok hdeprecated
      cases hobject
      obtain ⟨entries, hents, _⟩ := bind_eq_ok hmap
      intro key value hval
      obtain ⟨result, hres⟩ := ok_of_mapM hents (mem_of_getEntry hval)
      split at hres
      · rename_i enabled henabled
        cases value with
        | bool enabled => exact ⟨enabled, rfl⟩
        | _ => cases henabled
      · cases hres
    intro id x hx
    obtain ⟨old, hold⟩ := hkept id x hx
    obtain ⟨enabled, henabled⟩ := hbools id _ hold
    cases hobject : x.asObject with
    | none =>
      rw [mergeValue_leaf hobject] at henabled
      exact ⟨enabled, henabled⟩
    | some entries =>
      -- An object would still be one after the merge.
      rw [asObject_eq_some.mp hobject] at henabled
      unfold mergeValue at henabled
      split at henabled <;> cases henabled
  · rw [hempty] at hentry
    cases hentry

end Plain

/-- The user's settings file has another table of plugins; no other file has one. -/
structure TableReplaced (loader : ConfigLoader) (read read' : PathBuf → ReadOutcome)
    (object' table : JsonObject) : Prop where
  other : ∀ path, path ≠ settingsPath loader → read' path = read path
  file : ∃ source, readOptionalJsonObject read' (settingsPath loader) = .ok (some ⟨object', source⟩)
  same : ∀ key, key ≠ "enabledPlugins" →
    getEntry object' key = getEntry (settingsObject loader read) key
  entry : getEntry object' "enabledPlugins" = some (.object table)
  bools : BoolTable table
  plain : PlainOthers loader read

namespace TableReplaced

variable {loader : ConfigLoader} {read read' : PathBuf → ReadOutcome} {object' table : JsonObject}

theorem storable (h : TableReplaced loader read read' object' table) :
    (JsonValue.object object').Storable := by
  obtain ⟨source, hsource⟩ := h.file
  exact readOptionalJsonObject_storable hsource

theorem settingsObject_eq (h : TableReplaced loader read read' object' table) :
    settingsObject loader read' = object' := by
  obtain ⟨source, hsource⟩ := h.file
  unfold settingsObject objectOf
  rw [hsource]

theorem objectOf_other (h : TableReplaced loader read read' object' table)
    (hentry : entry.path ≠ settingsPath loader) : objectOf read' entry = objectOf read entry := by
  unfold objectOf
  rw [readOptionalJsonObject_congr (h.other entry.path hentry)]

theorem plain' (h : TableReplaced loader read read' object' table) : PlainOthers loader read' := by
  intro entry hentry hpath
  rw [h.objectOf_other hpath]
  exact h.plain entry hentry hpath

theorem sameButTable (h : TableReplaced loader read read' object' table)
    (entries : List ConfigEntry) : SameButTable (objectOf read) (objectOf read') entries := by
  intro entry _ key hkey
  by_cases hentry : entry.path = settingsPath loader
  · rw [objectOf_settingsPath hentry, objectOf_settingsPath hentry, h.settingsObject_eq,
      h.same key hkey]
  · rw [h.objectOf_other hentry]

theorem replaced (h : TableReplaced loader read read' object' table) (entry : ConfigEntry) :
    Replaced entry (readOptionalJsonObject read entry.path)
      (readOptionalJsonObject read' entry.path) := by
  by_cases hentry : entry.path = settingsPath loader
  · obtain ⟨source, hsource⟩ := h.file
    have haddable : ∀ {object : JsonObject},
        (∀ key, key ≠ "enabledPlugins" → getEntry object' key = getEntry object key) →
          Addable entry object → Addable entry object' := by
      intro object hsame hold
      refine hold.replace ?_ hsame
      intro e he
      have hget := getEntry_of_mem h.storable.1 he
      by_cases hkey : e.1 = "enabledPlugins"
      · rw [hkey, h.entry] at hget
        obtain ⟨k, v⟩ := e
        cases hkey
        cases hget
        exact .inr rfl
      · rw [hsame e.1 hkey] at hget
        exact .inl (mem_of_getEntry hget)
    have hsame := h.same
    rw [hentry, hsource]
    unfold settingsObject objectOf at hsame
    cases hread : readOptionalJsonObject read (settingsPath loader) with
    | error e => exact .refused e _
    | ok parsed =>
      rw [hread] at hsame
      cases parsed with
      | none => exact .added _ (haddable hsame .nil)
      | some parsed => exact .table parsed _ (haddable hsame)
  · rw [readOptionalJsonObject_congr (h.other entry.path hentry)]
    exact .same _

end TableReplaced

theorem reload {before : RuntimeConfig} (h : loader.load read = .ok before)
    (hreplaced : TableReplaced loader read read' object' table) :
    ∃ after, loader.load read' = .ok after ∧
      ((valueAt ["plugins", "enabled"] (.object (settingsObject loader read))).isSome = true →
        ∀ id, getEntry after.featureConfig.plugins.enabledPlugins id =
          getEntry before.featureConfig.plugins.enabledPlugins id) := by
  obtain ⟨hfiles, hmergedBefore, _, hplaces, _⟩ := load_ok h
  have hstorableBefore := storable_mergeFiles hfiles
  rw [← hmergedBefore] at hstorableBefore
  obtain ⟨state, hstate, hfeatures⟩ := bind_eq_ok h
  obtain ⟨features, hparse, hbefore⟩ := bind_eq_ok hfeatures
  cases hbefore
  -- The loop accepts the files again, and only the table of the merge changes.
  obtain ⟨state', hstate'⟩ :=
    loadEntries_replaced (fun entry _ => hreplaced.replaced entry) hstate {}
  obtain ⟨hmerged', haccepted', _⟩ := loadEntries_ok hstate'
  obtain ⟨hmerged, _, _⟩ := loadEntries_ok hstate
  have hfiles' : ∀ file ∈ (loadedFiles read' loader.discover).map Prod.snd, AcceptedFile file :=
    forall_mem_map.mpr haccepted'
  have hstorable' : (JsonValue.object state'.merged).Storable := by
    rw [hmerged']
    exact storable_mergeFiles hfiles'
  have hsame : ∀ key, key ≠ "enabledPlugins" →
      getEntry state'.merged key = getEntry state.merged key := by
    intro key hkey
    rw [hmerged', hmerged, foldl_loadedFiles, foldl_loadedFiles]
    exact getEntry_merged_same (fun entry => (objectOf_storable read entry).1)
      (fun entry => (objectOf_storable read' entry).1) (hreplaced.sameButTable _)
      (fun _ _ => rfl) hkey
  have htable : ∀ value, getEntry state'.merged "enabledPlugins" = some value →
      ∃ table, value = .object table ∧ BoolTable table := by
    rw [hmerged', foldl_loadedFiles]
    refine boolTable_merged ?_ fun value hval => by cases hval
    intro file hfile
    obtain ⟨entry, hentry, rfl⟩ := mem_map.mp hfile
    refine ⟨objectOf_storable read' entry, ?_⟩
    intro value hval
    rcases file_tables hreplaced.plain' hentry with hsettings | ⟨_, hnone⟩
    · rw [hsettings, hreplaced.settingsObject_eq, hreplaced.entry] at hval
      cases hval
      exact ⟨table, rfl, hreplaced.bools⟩
    · rw [hnone] at hval
      cases hval
  obtain ⟨features', hparse', hplugins'⟩ :=
    parseFeatures_replaced hstorable' hsame htable hparse state'.mcpServers
  refine ⟨⟨state'.merged, state'.loadedEntries, features'⟩, ?_, ?_⟩
  · unfold ConfigLoader.load
    rw [hstate', ok_bind, hparse', ok_bind]
  · intro hcur id
    have hplugins := hsame "plugins" (by decide)
    have hsome : (valueAt ["plugins", "enabled"] (.object state.merged)).isSome = true := by
      rw [hmerged, ← mergeFiles, table_mergeFiles hfiles]
      rcases settings_loaded loader read with hmem | hempty
      · exact ⟨_, hmem, hcur⟩
      · rw [hempty] at hcur
        cases hcur
    have hsome' : (valueAt ["plugins", "enabled"] (.object state'.merged)).isSome = true := by
      change ((getEntry state'.merged "plugins").bind _).isSome = true
      rw [hplugins]
      exact hsome
    rw [parseOptionalPluginConfig_enabled hstorable' hplugins', if_pos hsome',
      parseOptionalPluginConfig_enabled hstorableBefore hplaces.plugins, if_pos hsome]
    unfold readAt
    rw [leafAt_cons_object, leafAt_cons_object, hplugins]

end DbClinic.Runtime.Config
