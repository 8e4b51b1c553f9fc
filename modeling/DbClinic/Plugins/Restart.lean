import Mathlib.Data.List.TakeWhile
import DbClinic.Plugins.EnabledState

/-!
The load after a restart. The settings that the manager wrote are those it
found but for the deprecated table; so they load again, if each of their other
values is one that the runtime reads.
-/

namespace DbClinic.Plugins

open DbClinic.Runtime DbClinic.Runtime.Config DbClinic.Serde List

def withSettings (loader : ConfigLoader) (others : PathBuf → ReadOutcome) (settings : ReadOutcome)
    (path : PathBuf) : ReadOutcome :=
  if path = settingsPath loader then settings else others path

section Files

variable {loader : ConfigLoader} {others : PathBuf → ReadOutcome} {settings : ReadOutcome}

theorem withSettings_settings :
    withSettings loader others settings (settingsPath loader) = settings := if_pos rfl

theorem settingsPath_not_legacy : (settingsPath loader).fileName ≠ some ".claw.json" := by
  have hname : (settingsPath loader).fileName = some "settings.json" := by
    unfold settingsPath PathBuf.push PathBuf.fileName
    rw [getLast?_concat]
    rfl
  rw [hname]
  decide

variable {read : PathBuf → ReadOutcome} {path : PathBuf} {contents : List Char}

theorem readOptionalJsonObject_object {object : JsonObject} (hread : read path = .contents contents)
    (hblank : trim contents ≠ []) (hparse : JsonValue.parse contents = .ok (.object object)) :
    readOptionalJsonObject read path = .ok (some ⟨object, contents⟩) := by
  unfold readOptionalJsonObject
  rw [hread]
  dsimp only
  rw [if_neg hblank, hparse]
  rfl

theorem readOptionalJsonObject_refused {e : JsonError} (hread : read path = .contents contents)
    (hblank : trim contents ≠ []) (hname : path.fileName ≠ some ".claw.json")
    (hparse : JsonValue.parse contents = .error e) :
    ∃ e', readOptionalJsonObject read path = .error e' := by
  unfold readOptionalJsonObject
  rw [hread]
  dsimp only
  rw [if_neg hblank, hparse]
  dsimp only
  rw [if_neg hname]
  exact ⟨_, rfl⟩

theorem readOptionalJsonObject_parsed {result : Option ParsedConfigFile}
    (hread : read path = .contents contents) (hblank : trim contents ≠ [])
    (hname : path.fileName ≠ some ".claw.json")
    (h : readOptionalJsonObject read path = .ok result) :
    ∃ object, JsonValue.parse contents = .ok (.object object) := by
  unfold readOptionalJsonObject at h
  rw [hread] at h
  dsimp only at h
  rw [if_neg hblank] at h
  cases hparse : JsonValue.parse contents with
  | error e =>
    rw [hparse] at h
    dsimp only at h
    rw [if_neg hname] at h
    cases h
  | ok value =>
    rw [hparse] at h
    dsimp only at h
    cases hobject : value.asObject with
    | some object => exact ⟨object, congrArg Except.ok (asObject_eq_some.mp hobject)⟩
    | none =>
      rw [hobject] at h
      dsimp only at h
      rw [if_neg hname] at h
      cases h

theorem loadEntries_reads {entries : List ConfigEntry} {state final : LoadState}
    (h : ConfigLoader.loadEntries read state entries = .ok final) :
    ∀ entry ∈ entries, ∃ result, readOptionalJsonObject read entry.path = .ok result := by
  induction entries generalizing state with
  | nil => exact forall_mem_nil _
  | cons entry entries ih =>
    obtain ⟨_, _, hread⟩ := Outcomes.bind_eq_ok h
    obtain ⟨parsed, hparsed, hrest⟩ := Outcomes.bind_eq_ok hread
    refine forall_mem_cons.mpr ⟨⟨parsed, hparsed⟩, ?_⟩
    cases parsed with
    | none => exact ih hrest
    | some parsed =>
      obtain ⟨next, _, hmore⟩ := Outcomes.bind_eq_ok hrest
      exact ih hmore

theorem load_reads_settings {config : RuntimeConfig} (h : loader.load read = .ok config) :
    ∃ result, readOptionalJsonObject read (settingsPath loader) = .ok result := by
  obtain ⟨state, hstate, _⟩ := Outcomes.bind_eq_ok h
  exact loadEntries_reads hstate _ settings_discovered

end Files

theorem toJsonEntries_bools {entries : JsonMap} {table : JsonObject}
    (h : AgreesEntries entries table) (hbools : ∀ e ∈ table, ∃ enabled, e.2 = .bool enabled) :
    toJsonEntries entries = some table := by
  induction entries generalizing table with
  | nil =>
    cases table with
    | nil => rfl
    | cons e table => exact h.elim
  | cons entry entries ih =>
    cases table with
    | nil => exact h.elim
    | cons e table =>
      obtain ⟨k, value⟩ := entry
      obtain ⟨k', v⟩ := e
      obtain ⟨hkey, hval, hrest⟩ := h
      obtain ⟨⟨enabled, rfl⟩, hmore⟩ := forall_mem_cons.mp hbools
      subst hkey
      cases value with
      | bool b =>
        cases hval
        unfold toJsonEntries
        rw [ih hrest hmore]
        rfl
      | _ => exact hval.elim

theorem toJsonEntries_isSome_iff_keys {root : JsonMap} (hordered : KeyOrdered root) :
    (toJsonEntries root).isSome = true ↔
      ∀ key, (getEntry root key).map Value.toJson ≠ some none := by
  rw [toJsonEntries_isSome_iff]
  constructor
  · intro h key hnone
    obtain ⟨value, hval, hjson⟩ := Option.map_eq_some_iff.mp hnone
    have hsome := h _ (mem_of_getEntry hval)
    rw [hjson] at hsome
    cases hsome
  · intro h e he
    have hkey := h e.1
    rw [getEntry_of_mem hordered he, Option.map_some] at hkey
    exact Option.isSome_iff_ne_none.mpr fun hnone => hkey (congrArg some hnone)

section Start

variable {α : Type} {env : Environment α} {config : PluginManagerConfig} {loader : ConfigLoader}
  {read : PathBuf → ReadOutcome} {before : RuntimeConfig}

variable {root : JsonMap}

theorem settingsRoot_proper (laws : SerdeLaws env) {settings : ReadOutcome}
    (h : settingsRoot env config settings = .ok root) : (Value.object root).Proper := by
  unfold settingsRoot at h
  cases settings with
  | notFound =>
    cases h
    exact proper_nil
  | failed message => cases h
  | contents contents =>
    dsimp only at h
    split at h
    · cases h
      exact proper_nil
    · split at h
      · cases h
      · rename_i hread
        cases h
        exact laws.proper hread
      · cases h

theorem settingsRoot_agrees (laws : SerdeLaws env) (h : loader.load read = .ok before)
    (hroot : settingsRoot env config (read (settingsPath loader)) = .ok root) :
    AgreesEntries root (settingsObject loader read) := by
  obtain ⟨result, hres⟩ := load_reads_settings h
  unfold settingsRoot at hroot
  unfold settingsObject objectOf
  dsimp only
  cases hread : read (settingsPath loader) with
  | notFound =>
    rw [hread] at hroot
    cases hroot
    have hnone : readOptionalJsonObject read (settingsPath loader) = .ok none := by
      unfold readOptionalJsonObject
      rw [hread]
    rw [hnone]
    trivial
  | failed message =>
    rw [hread] at hroot
    cases hroot
  | contents contents =>
    rw [hread] at hroot
    dsimp only at hroot
    by_cases hblank : trim contents = []
    · rw [if_pos hblank] at hroot
      cases hroot
      have hempty : readOptionalJsonObject read (settingsPath loader) =
          .ok (some ⟨[], contents⟩) := by
        unfold readOptionalJsonObject
        rw [hread]
        dsimp only
        rw [if_pos hblank]
      rw [hempty]
      trivial
    · rw [if_neg hblank] at hroot
      obtain ⟨object, hparse⟩ :=
        readOptionalJsonObject_parsed hread hblank settingsPath_not_legacy hres
      rw [readOptionalJsonObject_object hread hblank hparse]
      cases hval : env.fromStr contents with
      | error e =>
        rw [hval] at hroot
        cases hroot
      | ok value =>
        rw [hval] at hroot
        have hagrees := laws.reads hparse hval
        cases value with
        | object entries =>
          cases hroot
          exact hagrees
        | _ => cases hroot

def deprecatedTable (settings : JsonObject) : JsonObject :=
  ((getEntry settings "enabledPlugins").bind JsonValue.asObject).getD []

theorem settingsRoot_view (laws : SerdeLaws env) (h : loader.load read = .ok before)
    (hplain : PlainOthers loader read)
    (hroot : settingsRoot env config (read (settingsPath loader)) = .ok root) :
    RootView root (fun key => (getEntry root key).map Value.toJson)
      (deprecatedTable (settingsObject loader read)) := by
  have hagrees := settingsRoot_agrees laws h hroot
  have hstorable : (JsonValue.object (settingsObject loader read)).Storable :=
    objectOf_storable read _
  have hproper := settingsRoot_proper laws hroot
  unfold deprecatedTable
  rcases getEntry_agrees hagrees "enabledPlugins" with ⟨hnone, hmissing⟩ |
    ⟨value, v, hval, hv, hsame⟩
  · rw [hmissing]
    refine ⟨hproper, fun _ _ => rfl, ?_, ?_, List.Pairwise.nil, fun key x hx => by cases hx⟩
    · rw [hnone]
      exact Option.some_ne_none _ ∘ Eq.symm
    · unfold objectAt
      rw [hnone]
      rfl
  · obtain ⟨table, rfl, hbools⟩ := settings_table h hplain hv
    have htable := storable_of_getEntry hstorable hv
    cases value with
    | object entries =>
      have hents : toJsonEntries entries = some table :=
        toJsonEntries_bools hsame fun e he =>
          hbools e.1 e.2 (getEntry_of_mem htable.1 he)
      rw [hv]
      refine ⟨hproper, fun _ _ => rfl, ?_, ?_, htable.1, hbools⟩
      · rw [hval, Option.map_some, Value.toJson, hents]
        exact Option.some_ne_none _ ∘ Option.some.inj
      · unfold objectAt
        rw [hval]
        exact hents
    | _ => exact hsame.elim

theorem loaded_stateIn (h : loader.load read = .ok before) (hplain : PlainOthers loader read)
    (hcur : valueAt ["plugins", "enabled"] (.object (settingsObject loader read)) = none)
    (id : String) :
    getEntry before.featureConfig.plugins.enabledPlugins id =
      stateIn (deprecatedTable (settingsObject loader read)) id := by
  rw [loaded_state h hplain hcur]
  unfold readAt stateIn deprecatedTable
  rw [leafAt_cons_object]
  cases hentry : getEntry (settingsObject loader read) "enabledPlugins" with
  | none => rfl
  | some value =>
    obtain ⟨table, rfl, hbools⟩ := settings_table h hplain hentry
    change ((leafAt [id] (.object table)).bind _) = (getEntry table id).bind _
    rw [leafAt_cons_object]
    cases hid : getEntry table id with
    | none => rfl
    | some x =>
      obtain ⟨enabled, rfl⟩ := hbools id x hid
      rfl

end Start

section Written

variable {root edited : JsonMap} {rest : String → Option (Option JsonValue)}
  {table table' settings object' : JsonObject}

theorem EditedView.isSome_iff (h : EditedView edited rest table') (hroot : RootView root rest table) :
    (toJsonEntries edited).isSome = true ↔ (toJsonEntries root).isSome = true := by
  rw [toJsonEntries_isSome_iff_keys h.proper.1, toJsonEntries_isSome_iff_keys hroot.proper.1]
  refine forall_congr' fun key => ?_
  by_cases hkey : key = "enabledPlugins"
  · subst hkey
    refine iff_of_true ?_ hroot.kept
    rw [h.entry]
    exact Option.some_ne_none _ ∘ Option.some.inj
  · rw [h.other key hkey, hroot.other key hkey]

theorem EditedView.written_other
    (h : EditedView edited (fun key => (getEntry root key).map Value.toJson) table')
    (hagrees : AgreesEntries root settings) (hjson : toJsonEntries edited = some object')
    {key : String} (hkey : key ≠ "enabledPlugins") :
    getEntry object' key = getEntry settings key := by
  have hentry := h.other key hkey
  have hread := getEntry_toJsonEntries hjson key
  rcases getEntry_agrees hagrees key with ⟨hnone, hmissing⟩ | ⟨value, v, hval, hv, hsame⟩
  · rw [hnone, Option.map_none, Option.map_eq_none_iff] at hentry
    rw [hread, hentry, hmissing]
    rfl
  · rw [hval, Option.map_some] at hentry
    obtain ⟨value', hval', htoJson⟩ := Option.map_eq_some_iff.mp hentry
    rw [hval', Option.bind_some, htoJson] at hread
    rw [hread, hv]
    cases hjsonValue : value.toJson with
    | some w => rw [Value.toJson_of_agrees value v w hsame hjsonValue]
    | none =>
      -- The written object has a value for each of its keys.
      have hsome := (toJsonEntries_isSome_iff_keys h.proper.1).mp (by rw [hjson]; rfl) key
      rw [hval', Option.map_some, htoJson, hjsonValue] at hsome
      exact absurd rfl hsome

theorem EditedView.written_table (h : EditedView edited rest table')
    (hjson : toJsonEntries edited = some object') :
    getEntry object' "enabledPlugins" = some (.object table') := by
  obtain ⟨value, hval, htoJson⟩ := Option.map_eq_some_iff.mp h.entry
  rw [getEntry_toJsonEntries hjson, hval, Option.bind_some, htoJson]

end Written

section Restart

variable {α : Type} (env : Environment α) (config : PluginManagerConfig) (loader : ConfigLoader)
  (others : PathBuf → ReadOutcome)

/-- A load of the settings that are there now gives each plugin the state that
the map in memory has for it. -/
def SurvivesRestart (w : World α) : Prop :=
  ∃ after, loader.load (withSettings loader others w.settingsFile) = .ok after ∧
    ∀ id, getEntry after.featureConfig.plugins.enabledPlugins id = getEntry w.enabledPlugins id

/-- Each value of the settings is read by the runtime when it has been written again. -/
def RewritesReadably (w : World α) : Prop :=
  ∀ root, settingsRoot env config w.settingsFile = .ok root → (toJsonEntries root).isSome = true

/-- No call was made; or the settings can be written again, and either they
have no current table or each plugin keeps the state that it had. -/
def RestartSafe (calls : List Call) (w : World α) : Prop :=
  calls = [] ∨ RewritesReadably env config w ∧
    (valueAt ["plugins", "enabled"]
        (.object (settingsObject loader (withSettings loader others w.settingsFile))) = none ∨
      ∀ id state, lastState calls id = some state → state = getEntry w.enabledPlugins id)

variable {env config loader others} {before : RuntimeConfig} {calls : List Call} {w w' : World α}

theorem withSettings_other {settings settings' : ReadOutcome} {path : PathBuf}
    (h : path ≠ settingsPath loader) :
    withSettings loader others settings path = withSettings loader others settings' path := by
  unfold withSettings
  rw [if_neg h, if_neg h]

theorem settingsRoot_withSettings {root : JsonMap}
    (h : settingsRoot env config w.settingsFile = .ok root) :
    settingsRoot env config
      (withSettings loader others w.settingsFile (settingsPath loader)) = .ok root := by
  rw [withSettings_settings]
  exact h

theorem not_survives_of_refused {text : List Char} {e : JsonError}
    (hfile : w.settingsFile = .contents text) (hblank : trim text ≠ [])
    (hparse : JsonValue.parse text = .error e) : ¬ SurvivesRestart loader others w := by
  rintro ⟨after, hload, _⟩
  obtain ⟨result, hres⟩ := load_reads_settings hload
  have hread : withSettings loader others w.settingsFile (settingsPath loader) = .contents text :=
    withSettings_settings.trans hfile
  obtain ⟨e', herror⟩ :=
    readOptionalJsonObject_refused hread hblank settingsPath_not_legacy hparse
  rw [herror] at hres
  cases hres

theorem load_written (laws : SerdeLaws env)
    (hload : loader.load (withSettings loader others w.settingsFile) = .ok before)
    (hplain : PlainOthers loader (withSettings loader others w.settingsFile))
    {root edited : JsonMap} {table object' : JsonObject}
    (hroot : settingsRoot env config w.settingsFile = .ok root)
    (hfile : w'.settingsFile = .contents (env.toStringPretty (.object edited)))
    (hedit : EditedView edited (fun key => (getEntry root key).map Value.toJson) table)
    (hjson : toJsonEntries edited = some object') :
    TableReplaced loader (withSettings loader others w.settingsFile)
      (withSettings loader others w'.settingsFile) object' table := by
  have hagrees := settingsRoot_agrees laws hload (settingsRoot_withSettings hroot)
  have hval : (Value.object edited).toJson = some (.object object') := by
    unfold Value.toJson
    rw [hjson]
    rfl
  have hread : withSettings loader others w'.settingsFile (settingsPath loader) =
      .contents (env.toStringPretty (.object edited)) := withSettings_settings.trans hfile
  have hobject := readOptionalJsonObject_object hread (laws.notBlank edited)
    (laws.prints hedit.proper hval)
  refine ⟨fun path hpath => withSettings_other hpath, ⟨_, hobject⟩, ?_, hedit.written_table hjson,
    hedit.bools, hplain⟩
  intro key hkey
  exact hedit.written_other hagrees hjson hkey

theorem survives_iff (laws : SerdeLaws env)
    (hload : loader.load (withSettings loader others w.settingsFile) = .ok before)
    (hplain : PlainOthers loader (withSettings loader others w.settingsFile))
    (hmap : w.enabledPlugins = before.featureConfig.plugins.enabledPlugins)
    (hrun : runCalls env config calls w = .ok () w') (hcalls : calls ≠ []) :
    SurvivesRestart loader others w' ↔ RestartSafe env config loader others calls w := by
  obtain ⟨root, hroot⟩ := runCalls_reads hrun hcalls
  have hview := settingsRoot_view laws hload hplain (settingsRoot_withSettings hroot)
  obtain ⟨edited, table, hfile, hedit, hstates⟩ := runCalls_file laws calls hcalls hrun (by
    intro root' hroot'
    cases hroot.symm.trans hroot'
    exact hview)
  have hreadable : RewritesReadably env config w ↔ (toJsonEntries edited).isSome = true := by
    rw [hedit.isSome_iff hview]
    constructor
    · intro h
      exact h root hroot
    · intro h root' hroot'
      cases hroot.symm.trans hroot'
      exact h
  unfold RestartSafe
  rw [or_iff_right hcalls, hreadable]
  cases hjson : toJsonEntries edited with
  | none =>
    have hnone : (Value.object edited).toJson = none := by
      unfold Value.toJson
      rw [hjson]
      rfl
    obtain ⟨e, herror⟩ := laws.refused hedit.proper hnone
    refine iff_of_false (not_survives_of_refused hfile (laws.notBlank edited) herror) ?_
    rintro ⟨hsome, _⟩
    cases hsome
  | some object' =>
    have hreplaced := load_written laws hload hplain hroot hfile hedit hjson
    obtain ⟨after, hafter, hcurrentStates⟩ := reload hload hreplaced
    have hsurvives : SurvivesRestart loader others w' ↔
        ∀ id, getEntry after.featureConfig.plugins.enabledPlugins id =
          getEntry w'.enabledPlugins id := by
      constructor
      · rintro ⟨after', hafter', h⟩
        cases hafter.symm.trans hafter'
        exact h
      · intro h
        exact ⟨after, hafter, h⟩
    rw [hsurvives]
    cases hcur : valueAt ["plugins", "enabled"]
        (.object (settingsObject loader (withSettings loader others w.settingsFile))) with
    | none =>
      -- The deprecated table is the one that both sides read.
      refine iff_of_true ?_ ⟨rfl, .inl rfl⟩
      intro id
      have hnone : valueAt ["plugins", "enabled"]
          (.object (settingsObject loader (withSettings loader others w'.settingsFile))) =
            none := by
        rw [hreplaced.settingsObject_eq]
        change (getEntry object' "plugins").bind _ = none
        rw [hreplaced.same "plugins" (by decide)]
        exact hcur
      have htable : deprecatedTable
          (settingsObject loader (withSettings loader others w'.settingsFile)) = table := by
        unfold deprecatedTable
        rw [hreplaced.settingsObject_eq, hreplaced.entry]
        rfl
      rw [loaded_stateIn hafter hreplaced.plain' hnone, htable, hstates, runCalls_map hrun,
        hmap, loaded_stateIn hload hplain hcur]
    | some current =>
      have hsame := hcurrentStates (by rw [hcur]; rfl)
      constructor
      · intro h
        refine ⟨rfl, .inr ?_⟩
        intro id state hstate
        have hid := h id
        rw [hsame, runCalls_map hrun, hstate, ← hmap] at hid
        exact hid.symm
      · rintro ⟨_, hcases⟩
        have hkept := hcases.resolve_left (fun hnone => by cases hnone)
        intro id
        rw [hsame, runCalls_map hrun, ← hmap]
        cases hlast : lastState calls id with
        | none => rfl
        | some state => exact (hkept id state hlast).symm

end Restart

/-- For every settings that the loader accepts, with either table and no other
file with one, and every run of successful calls from the map that was loaded:
the load after the calls gives each plugin the state of the map in memory if and
only if the calls were safe. -/
theorem restart_keeps_states_iff {α : Type} (env : Environment α) (config : PluginManagerConfig)
    (loader : ConfigLoader) (others : PathBuf → ReadOutcome) (before : RuntimeConfig)
    (calls : List Call) (w w' : World α) (laws : SerdeLaws env)
    (hload : loader.load (withSettings loader others w.settingsFile) = .ok before)
    (hplain : PlainOthers loader (withSettings loader others w.settingsFile))
    (hmap : w.enabledPlugins = before.featureConfig.plugins.enabledPlugins)
    (hrun : runCalls env config calls w = .ok () w') :
    SurvivesRestart loader others w' ↔ RestartSafe env config loader others calls w := by
  by_cases hcalls : calls = []
  · subst hcalls
    cases hrun
    refine iff_of_true ⟨before, hload, fun id => ?_⟩ (.inl rfl)
    rw [hmap]
  · exact survives_iff laws hload hplain hmap hrun hcalls

/-! A serializer with these laws: a text is the one of `serde_json` where the
runtime reads it as it should, and otherwise the one of the runtime. -/

def checkedPretty (value : Serde.Value) : List Char :=
  let text := value.pretty []
  match value.toJson with
  | some v =>
    if (JsonValue.parse text).toOption.map JsonValue.render = some v.render ∧ trim text ≠ [] then
      text
    else v.render
  | none => if (JsonValue.parse text).toBool ∨ trim text = [] then ['?'] else text

variable {value : Serde.Value}

theorem checkedPretty_prints {v : JsonValue} (hproper : value.Proper)
    (hval : value.toJson = some v) : JsonValue.parse (checkedPretty value) = .ok v := by
  have hstorable := Value.storable_of_proper value v hproper hval
  unfold checkedPretty
  rw [hval]
  dsimp only
  split
  · rename_i hchecked
    obtain ⟨read, hread, hrender⟩ := Option.map_eq_some_iff.mp hchecked.1
    cases hparse : JsonValue.parse (value.pretty []) with
    | error e =>
      rw [hparse] at hread
      cases hread
    | ok w =>
      rw [hparse] at hread
      cases hread
      -- Two values with one rendering are read from it, so they are the same.
      have hsame := JsonValue.parse_render (JsonValue.parse_storable hparse)
      rw [hrender, JsonValue.parse_render hstorable] at hsame
      exact hsame.symm
  · exact JsonValue.parse_render hstorable

theorem checkedPretty_refused (hval : value.toJson = none) :
    ∃ e, JsonValue.parse (checkedPretty value) = .error e := by
  unfold checkedPretty
  rw [hval]
  dsimp only
  split
  · exact ⟨_, rfl⟩
  · rename_i hrefused
    cases hparse : JsonValue.parse (value.pretty []) with
    | error e => exact ⟨e, rfl⟩
    | ok w =>
      rw [hparse] at hrefused
      exact absurd (.inl rfl) hrefused

theorem trim_render_object (entries : JsonObject) :
    trim (JsonValue.object entries).render ≠ [] := by
  have hrender : (JsonValue.object entries).render =
      '\x7b' :: (JsonValue.renderEntries entries ++ ['\x7d']) := rfl
  have hbrace : ¬ isWhitespace '\x7b' = true := by decide
  unfold trim
  rw [hrender, dropWhile_cons_of_neg hbrace, ne_eq, reverse_eq_nil_iff,
    dropWhile_eq_nil_iff]
  intro hblank
  exact hbrace (hblank '\x7b' (mem_reverse.mpr mem_cons_self))

theorem checkedPretty_notBlank (root : JsonMap) : trim (checkedPretty (.object root)) ≠ [] := by
  unfold checkedPretty
  cases hval : (Value.object root).toJson with
  | none =>
    dsimp only
    split
    · decide
    · rename_i hrefused
      exact fun hblank => hrefused (.inr hblank)
  | some v =>
    obtain ⟨entries, _, rfl⟩ := Option.map_eq_some_iff.mp hval
    dsimp only
    split
    · rename_i hchecked
      exact hchecked.2
    · exact trim_render_object entries

/-- The manager in an empty tree; it uses nothing but the serializer. -/
def exampleEnvironment : Environment (List Char) where
  cwd := ["work"]
  manifestDir := ["repo", "plugins"]
  readToString := some
  fromStr contents := (JsonValue.parse contents).mapError JsonError.message |>.map Value.ofJson
  toStringPretty := checkedPretty
  rawManifest _ := .error "missing field \x60name\x60"
  registryFromStr _ := .error "missing field \x60plugins\x60"
  registryToString _ := []
  gitClone _ _ _ := .error "no network"

theorem exampleEnvironment_fromStr {contents : List Char}
    (h : exampleEnvironment.fromStr contents = .ok value) :
    ∃ v, JsonValue.parse contents = .ok v ∧ v.Storable ∧ value = Value.ofJson v := by
  unfold exampleEnvironment at h
  dsimp only at h
  cases hparse : JsonValue.parse contents with
  | error e =>
    rw [hparse] at h
    cases h
  | ok v =>
    rw [hparse] at h
    cases h
    exact ⟨v, rfl, JsonValue.parse_storable hparse, rfl⟩

theorem exampleEnvironment_laws : SerdeLaws exampleEnvironment where
  proper h := by
    obtain ⟨v, _, hstorable, rfl⟩ := exampleEnvironment_fromStr h
    exact (Value.ofJson_spec v hstorable).2.1
  reads hparse h := by
    obtain ⟨v, hv, hstorable, rfl⟩ := exampleEnvironment_fromStr h
    cases hparse.symm.trans hv
    exact (Value.ofJson_spec _ hstorable).1
  prints hproper hval := checkedPretty_prints hproper hval
  refused _ hval := checkedPretty_refused hval
  readsBack := by
    intro root value hproper h
    obtain ⟨v, hv, hstorable, rfl⟩ := exampleEnvironment_fromStr h
    cases hval : (Value.object root).toJson with
    | none =>
      obtain ⟨e, herror⟩ := checkedPretty_refused hval
      cases herror.symm.trans hv
    | some w =>
      have hsame := (checkedPretty_prints hproper hval).symm.trans hv
      cases hsame
      obtain ⟨entries, hents, rfl⟩ := Option.map_eq_some_iff.mp hval
      refine ⟨ofJsonEntries entries, rfl, ?_⟩
      have hback := (ofJsonEntries_spec entries hstorable.2).2.2
      intro key
      rw [map_toJson_getEntry hback, map_toJson_getEntry hents]
  notBlank root := checkedPretty_notBlank root

def exampleConfig : PluginManagerConfig := { configHome := ["home", ".claw"] }

/-- A world with nothing but the settings and the map. -/
def exampleWorld (settings : ReadOutcome) (enabled : List (String × Bool)) :
    World (List Char) where
  tree := FileTree.empty
  registryFile := .notFound
  settingsFile := settings
  enabledPlugins := enabled

def succeeded {β : Type} : EStateM.Result PluginError (World (List Char)) β → Bool
  | .ok _ _ => true
  | .error _ _ => false

theorem exists_of_succeeded {result : EStateM.Result PluginError (World (List Char)) Unit}
    (h : succeeded result = true) : ∃ w', result = .ok () w' := by
  cases result with
  | ok u w' => exact ⟨w', rfl⟩
  | error e w' => cases h

theorem plainOthers_alone (loader : ConfigLoader) (settings : ReadOutcome) :
    PlainOthers loader (withSettings loader (fun _ => .notFound) settings) := by
  intro entry _ hpath
  have hread : withSettings loader (fun _ => .notFound) settings entry.path = .notFound :=
    if_neg hpath
  have hempty : objectOf (withSettings loader (fun _ => .notFound) settings) entry = [] := by
    unfold objectOf readOptionalJsonObject
    rw [hread]
  rw [hempty]
  exact ⟨rfl, rfl⟩

/-- Without settings, a plugin is disabled and stays so. -/
theorem restart_keeps_disabled : ∃ w',
    runCalls exampleEnvironment exampleConfig [.disable "example-builtin@builtin"]
      (exampleWorld .notFound []) = .ok () w' ∧
    (SurvivesRestart exampleLoader (fun _ => .notFound) w' ↔
      RestartSafe exampleEnvironment exampleConfig exampleLoader (fun _ => .notFound)
        [.disable "example-builtin@builtin"] (exampleWorld .notFound [])) := by
  have hrun : succeeded (runCalls exampleEnvironment exampleConfig
      [.disable "example-builtin@builtin"] (exampleWorld .notFound [])) = true := by
    decide +kernel
  obtain ⟨w', hw'⟩ := exists_of_succeeded hrun
  have hfiles : withSettings exampleLoader (fun _ => .notFound) .notFound = fun _ => .notFound :=
    funext fun path => ite_self _
  have hload : exampleLoader.load (withSettings exampleLoader (fun _ => .notFound) .notFound) =
      .ok ⟨[], [], ⟨{}, {}, [], none, none, [], none, ⟨[], [], []⟩, {}, {}, []⟩⟩ := by
    rw [hfiles]
    rfl
  refine ⟨w', hw', ?_⟩
  exact restart_keeps_states_iff exampleEnvironment exampleConfig exampleLoader (fun _ => .notFound)
    _ [.disable "example-builtin@builtin"] (exampleWorld .notFound []) w' exampleEnvironment_laws
    hload (plainOthers_alone exampleLoader .notFound) rfl hw'

def currentSettings : ReadOutcome :=
  .contents ("\x7b\"plugins\":\x7b\"enabled\":\x7b\"example-builtin@builtin\":" ++
    "true\x7d\x7d\x7d").toList

/-- The plugin is disabled without an error, and the next load enables it again. -/
theorem restart_forgets_disabled : ∃ before w',
    exampleLoader.load (withSettings exampleLoader (fun _ => .notFound) currentSettings) =
      .ok before ∧
    PlainOthers exampleLoader (withSettings exampleLoader (fun _ => .notFound) currentSettings) ∧
    runCalls exampleEnvironment exampleConfig [.disable "example-builtin@builtin"]
      (exampleWorld currentSettings before.featureConfig.plugins.enabledPlugins) = .ok () w' ∧
    ¬ SurvivesRestart exampleLoader (fun _ => .notFound) w' := by
  have hloaded : ((exampleLoader.load (withSettings exampleLoader (fun _ => .notFound)
      currentSettings)).toOption.map fun config => config.featureConfig.plugins.enabledPlugins) =
        some [("example-builtin@builtin", true)] := by
    decide +kernel
  obtain ⟨before, hbefore, hmap⟩ := Option.map_eq_some_iff.mp hloaded
  have hload : exampleLoader.load (withSettings exampleLoader (fun _ => .notFound)
      currentSettings) = .ok before := by
    cases hres : exampleLoader.load (withSettings exampleLoader (fun _ => .notFound)
        currentSettings) with
    | error e =>
      rw [hres] at hbefore
      cases hbefore
    | ok config =>
      rw [hres] at hbefore
      exact congrArg Except.ok (Option.some.inj hbefore)
  have hrun : succeeded (runCalls exampleEnvironment exampleConfig
      [.disable "example-builtin@builtin"]
      (exampleWorld currentSettings [("example-builtin@builtin", true)])) = true := by
    decide +kernel
  obtain ⟨w', hw'⟩ := exists_of_succeeded hrun
  have hplain := plainOthers_alone exampleLoader currentSettings
  rw [← hmap] at hw'
  refine ⟨before, w', hload, hplain, hw', ?_⟩
  have hsurvives := survives_iff (w := exampleWorld currentSettings
    before.featureConfig.plugins.enabledPlugins) exampleEnvironment_laws hload hplain rfl hw'
      (cons_ne_nil _ _)
  rw [hsurvives]
  rintro (hnone | ⟨_, hmissing | hkept⟩)
  · exact cons_ne_nil _ _ hnone
  · have hcur : (valueAt ["plugins", "enabled"] (.object (settingsObject exampleLoader
        (withSettings exampleLoader (fun _ => .notFound) currentSettings)))).isSome = true := by
      decide +kernel
    have hnone : valueAt ["plugins", "enabled"] (.object (settingsObject exampleLoader
        (withSettings exampleLoader (fun _ => .notFound) currentSettings))) = none := hmissing
    rw [hnone] at hcur
    cases hcur
  · have hlast : lastState [.disable "example-builtin@builtin"] "example-builtin@builtin" =
        some (some false) := by
      decide +kernel
    have hstate : some false = getEntry before.featureConfig.plugins.enabledPlugins
        "example-builtin@builtin" := hkept _ _ hlast
    have hbuiltin : getEntry [("example-builtin@builtin", true)] "example-builtin@builtin" =
        some true := by
      decide +kernel
    rw [hmap, hbuiltin] at hstate
    cases hstate

end DbClinic.Plugins
