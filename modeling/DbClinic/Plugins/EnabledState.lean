import DbClinic.Plugins.SettingsSteps
import DbClinic.Runtime.ConfigReload
import DbClinic.Runtime.SerdeJson

/-!
Enabling, disabling and a restart. The manager writes the states of the plugins
under `enabledPlugins`; the loader takes them from `plugins.enabled` where the
settings have that table. So a restart gives the states of the map in memory
only where the current table is missing, or nothing has changed.
-/

namespace DbClinic.Plugins

open DbClinic.Runtime DbClinic.Runtime.Config DbClinic.Serde

/-- What `serde_json` is known for. Its parser gives values of the library, and
where the runtime reads the text too, the same value; a value is read back from
its text, by either parser; and a number that is no 64-bit integer has a text
that the runtime does not read. -/
structure SerdeLaws {α : Type} (env : Environment α) : Prop where
  proper : ∀ {contents : List Char} {value : Serde.Value},
    env.fromStr contents = .ok value → value.Proper
  reads : ∀ {contents : List Char} {v : JsonValue} {value : Serde.Value},
    JsonValue.parse contents = .ok v → env.fromStr contents = .ok value → value.Agrees v
  prints : ∀ {value : Serde.Value} {v : JsonValue}, value.Proper → value.toJson = some v →
    JsonValue.parse (env.toStringPretty value) = .ok v
  refused : ∀ {value : Serde.Value}, value.Proper → value.toJson = none →
    ∃ e, JsonValue.parse (env.toStringPretty value) = .error e
  readsBack : ∀ {root : JsonMap} {value : Serde.Value}, (Value.object root).Proper →
    env.fromStr (env.toStringPretty (.object root)) = .ok value →
      ∃ root', value = .object root' ∧
        ∀ key, (getEntry root' key).map Value.toJson = (getEntry root key).map Value.toJson
  notBlank : ∀ root, trim (env.toStringPretty (.object root)) ≠ []

section Map

variable {β : Type}

theorem getEntry_removeEntry (map : List (String × β)) (key other : String) :
    getEntry (removeEntry map key) other = if key = other then none else getEntry map other :=
  getEntry_filter_ne key map other

theorem getEntry_withState (id : String) (state : Option β) (map : List (String × β))
    (other : String) :
    getEntry (withState id state map) other = if id = other then state else getEntry map other := by
  cases state with
  | none => exact getEntry_removeEntry map id other
  | some value => exact getEntry_insertEntry id value map other

end Map

def lastState (calls : List Call) (id : String) : Option (Option Bool) :=
  highest (fun call : Call => if call.id = id then some call.state else none) calls

theorem lastState_cons (call : Call) (calls : List Call) (id : String) (before : Option Bool) :
    (lastState (call :: calls) id).getD before =
      (lastState calls id).getD (if call.id = id then call.state else before) := by
  unfold lastState
  rw [highest]
  cases highest (fun call : Call => if call.id = id then some call.state else none) calls with
  | some state => rfl
  | none =>
    by_cases h : call.id = id
    · rw [if_pos h, if_pos h]
      rfl
    · rw [if_neg h, if_neg h]
      rfl

def stateIn (table : JsonObject) (id : String) : Option Bool :=
  (getEntry table id).bind JsonValue.asBool

/-- A settings object: `rest` is what its other keys hold, `table` its
deprecated table. -/
structure RootView (root : JsonMap) (rest : String → Option (Option JsonValue))
    (table : JsonObject) : Prop where
  proper : (Value.object root).Proper
  other : ∀ key, key ≠ "enabledPlugins" → (getEntry root key).map Value.toJson = rest key
  kept : (getEntry root "enabledPlugins").map Value.toJson ≠ some none
  entries : toJsonEntries (objectAt root "enabledPlugins") = some table
  tableOrdered : KeyOrdered table
  bools : BoolTable table

/-- A settings object after a call, which has written the table. -/
structure EditedView (root : JsonMap) (rest : String → Option (Option JsonValue))
    (table : JsonObject) : Prop where
  proper : (Value.object root).Proper
  other : ∀ key, key ≠ "enabledPlugins" → (getEntry root key).map Value.toJson = rest key
  entry : (getEntry root "enabledPlugins").map Value.toJson = some (some (.object table))
  tableOrdered : KeyOrdered table
  bools : BoolTable table

variable {root : JsonMap} {table : JsonObject} {rest : String → Option (Option JsonValue)}

theorem objectAt_table {key : String}
    (h : (getEntry root key).map Value.toJson = some (some (.object table))) :
    toJsonEntries (objectAt root key) = some table := by
  obtain ⟨value, hentry, hjson⟩ := Option.map_eq_some_iff.mp h
  unfold objectAt
  rw [hentry]
  cases value with
  | object entries =>
    obtain ⟨es, hes, heq⟩ := Option.map_eq_some_iff.mp hjson
    cases heq
    exact hes
  | array values =>
    obtain ⟨vs, _, heq⟩ := Option.map_eq_some_iff.mp hjson
    cases heq
  | number n =>
    cases n with
    | unsigned n =>
      rw [Value.toJson, Number.toJson] at hjson
      split at hjson <;> cases hjson
    | negative n =>
      rw [Value.toJson, Number.toJson] at hjson
      split at hjson <;> cases hjson
    | float text => cases hjson
  | _ => cases hjson

theorem EditedView.readBack {root' : JsonMap} (h : EditedView root rest table)
    (hproper : (Value.object root').Proper)
    (hsame : ∀ key, (getEntry root' key).map Value.toJson = (getEntry root key).map Value.toJson) :
    RootView root' rest table := by
  refine ⟨hproper, ?_, ?_, ?_, h.tableOrdered, h.bools⟩
  · intro key hkey
    rw [hsame, h.other key hkey]
  · rw [hsame, h.entry]
    exact Option.some_ne_none _ ∘ Option.some.inj
  · exact objectAt_table ((hsame _).trans h.entry)

theorem boolTable_withState (h : BoolTable table) (id : String) (state : Option Bool) :
    BoolTable (withState id (state.map JsonValue.bool) table) := by
  intro key value hval
  rw [getEntry_withState] at hval
  split at hval
  · obtain ⟨enabled, _, rfl⟩ := Option.map_eq_some_iff.mp hval
    exact ⟨enabled, rfl⟩
  · exact h key value hval

theorem keyOrdered_withState {β : Type} {map : List (String × β)} (h : KeyOrdered map) (id : String)
    (state : Option β) : KeyOrdered (withState id state map) := by
  cases state with
  | none => exact List.Pairwise.filter _ h
  | some value => exact h.insertEntry id value

theorem stateIn_withState (table : JsonObject) (id : String) (state : Option Bool)
    (other : String) :
    stateIn (withState id (state.map JsonValue.bool) table) other =
      if id = other then state else stateIn table other := by
  unfold stateIn
  rw [getEntry_withState]
  split
  · cases state <;> rfl
  · rfl

theorem proper_objectAt (h : (Value.object root).Proper) (key : String) :
    (Value.object (objectAt root key)).Proper := by
  unfold objectAt
  cases hentry : getEntry root key with
  | none => exact proper_nil
  | some value =>
    cases value with
    | object entries => exact proper_of_getEntry h hentry
    | _ => exact proper_nil

theorem proper_withState {entries : JsonMap} (h : (Value.object entries).Proper) (id : String)
    (state : Option Bool) :
    (Value.object (withState id (state.map Value.bool) entries)).Proper := by
  cases state with
  | none => exact proper_filter h
  | some enabled => exact proper_insertEntry trivial h

theorem RootView.edit (h : RootView root rest table) (call : Call) :
    EditedView (setEnabledState call.id call.state root) rest
      (withState call.id (call.state.map JsonValue.bool) table) := by
  have hents : toJsonEntries (withState call.id (call.state.map Value.bool)
      (objectAt root "enabledPlugins")) =
        some (withState call.id (call.state.map JsonValue.bool) table) := by
    cases call.state with
    | none =>
      exact @toJsonEntries_filter _ _ (fun key => decide (key ≠ call.id)) h.entries
    | some enabled => exact toJsonEntries_insertEntry rfl h.entries
  have hroot : setEnabledState call.id call.state root =
      insertEntry "enabledPlugins" (.object (withState call.id (call.state.map Value.bool)
        (objectAt root "enabledPlugins"))) root := by
    unfold setEnabledState
    cases call.state <;> rfl
  rw [hroot]
  have hproper := proper_withState (proper_objectAt h.proper "enabledPlugins") call.id call.state
  refine ⟨proper_insertEntry hproper h.proper, ?_, ?_, keyOrdered_withState h.tableOrdered _ _,
    boolTable_withState h.bools _ _⟩
  · intro key hkey
    rw [getEntry_insertEntry, if_neg (Ne.symm hkey)]
    exact h.other key hkey
  · rw [getEntry_insertEntry, if_pos rfl, Option.map_some, Value.toJson, hents]
    rfl

section Runs

variable {α : Type} {env : Environment α} {config : PluginManagerConfig}

theorem settingsRoot_written (laws : SerdeLaws env) {edited : JsonMap}
    (h : EditedView edited rest table)
    (hroot : settingsRoot env config (.contents (env.toStringPretty (.object edited))) = .ok root) :
    RootView root rest table := by
  unfold settingsRoot at hroot
  dsimp only at hroot
  rw [if_neg (laws.notBlank _)] at hroot
  cases hread : env.fromStr (env.toStringPretty (.object edited)) with
  | error e =>
    rw [hread] at hroot
    cases hroot
  | ok value =>
    obtain ⟨root', rfl, hsame⟩ := laws.readsBack h.proper hread
    have hproper := laws.proper hread
    rw [hread] at hroot
    cases hroot
    exact h.readBack hproper hsame

variable {calls : List Call} {w w' : World α}

theorem runCalls_reads (h : runCalls env config calls w = .ok () w') (hcalls : calls ≠ []) :
    ∃ root, settingsRoot env config w.settingsFile = .ok root := by
  cases calls with
  | nil => exact absurd rfl hcalls
  | cons call calls =>
    obtain ⟨_, w₁, hcall, _⟩ := bind_ok h
    obtain ⟨root, hroot, _⟩ := call_ok hcall
    exact ⟨root, hroot⟩

theorem runCalls_file (laws : SerdeLaws env) :
    ∀ (calls : List Call) {w w' : World α} {table : JsonObject}, calls ≠ [] →
      runCalls env config calls w = .ok () w' →
      (∀ root, settingsRoot env config w.settingsFile = .ok root → RootView root rest table) →
      ∃ edited table', w'.settingsFile = .contents (env.toStringPretty (.object edited)) ∧
        EditedView edited rest table' ∧
        ∀ id, stateIn table' id = (lastState calls id).getD (stateIn table id)
  | [], _, _, _, hne, _, _ => absurd rfl hne
  | call :: calls, w, w', table, _, hrun, hview => by
    obtain ⟨_, w₁, hcall, hrest⟩ := bind_ok hrun
    obtain ⟨root, hroot, hfile, _⟩ := call_ok hcall
    have hedited := (hview root hroot).edit call
    have hstates : ∀ id,
        stateIn (withState call.id (call.state.map JsonValue.bool) table) id =
          if call.id = id then call.state else stateIn table id :=
      stateIn_withState table call.id call.state
    cases calls with
    | nil =>
      cases hrest
      refine ⟨_, _, hfile, hedited, ?_⟩
      intro id
      rw [hstates, lastState_cons]
      rfl
    | cons next calls =>
      obtain ⟨edited, table', hwritten, hedit, htable⟩ :=
        runCalls_file laws (next :: calls) (List.cons_ne_nil _ _) hrest
          (fun root' hroot' => settingsRoot_written laws hedited (hfile ▸ hroot'))
      refine ⟨edited, table', hwritten, hedit, ?_⟩
      intro id
      rw [htable, hstates, lastState_cons call]

theorem runCalls_map (h : runCalls env config calls w = .ok () w') (id : String) :
    getEntry w'.enabledPlugins id =
      (lastState calls id).getD (getEntry w.enabledPlugins id) := by
  induction calls generalizing w with
  | nil =>
    cases h
    rfl
  | cons call calls ih =>
    obtain ⟨_, w₁, hcall, hrest⟩ := bind_ok h
    obtain ⟨_, _, _, hmap⟩ := call_ok hcall
    rw [ih hrest, hmap, getEntry_withState, lastState_cons]

end Runs

end DbClinic.Plugins
