import DbClinic.Lib.Effects
import DbClinic.Plugins.Manager

/-!
What the operations of the manager do to the settings file and to the map in
memory. Discovery, the sync of the bundled plugins and the registry leave both
alone; only the last steps of an operation write them.
-/

namespace DbClinic.Plugins

open DbClinic.Runtime DbClinic.Runtime.Config Effects

variable {α β γ : Type}

/-- The computation touches neither the settings file nor the map, however it ends. -/
def KeepsSettings (m : Run α β) : Prop :=
  ∀ settings enabled,
    Keeps (fun w : World α => w.settingsFile = settings ∧ w.enabledPlugins = enabled) m

namespace KeepsSettings

theorem pure (b : β) : KeepsSettings (Pure.pure b : Run α β) :=
  fun _ _ => Triple.pure fun _ hs => hs

theorem throw (e : PluginError) : KeepsSettings (MonadExcept.throw e : Run α β) :=
  fun _ _ => Triple.throw fun _ hs => hs

variable {m : Run α β}

theorem bind {f : β → Run α γ} (hfirst : KeepsSettings m) (hrest : ∀ b, KeepsSettings (f b)) :
    KeepsSettings (m >>= f) :=
  fun settings enabled => Triple.bind (hfirst settings enabled) fun b => hrest b settings enabled

theorem get : KeepsSettings (MonadState.get : Run α (World α)) := fun _ _ _ hs => hs

theorem liftResult (r : Except PluginError β) : KeepsSettings (Plugins.liftResult r : Run α β) := by
  cases r with
  | ok b => exact pure b
  | error e => exact throw e

theorem step : KeepsSettings (Plugins.step : Run α Unit) := by
  intro settings enabled w hw
  unfold Plugins.step
  split
  · exact hw
  · exact hw

theorem onTree (change : FileTree α → Except IoError (FileTree α)) :
    KeepsSettings (Plugins.onTree change) := by
  intro settings enabled w hw
  unfold Plugins.onTree
  split
  · exact hw
  · exact hw

theorem ite {p : Prop} [Decidable p] {n : Run α β} (hm : KeepsSettings m) (hn : KeepsSettings n) :
    KeepsSettings (if p then m else n) := by
  split
  · exact hm
  · exact hn

end KeepsSettings

section Stores

variable (env : Environment α) (config : PluginManagerConfig)

theorem createDirAll_keepsSettings (path : Path) : KeepsSettings (createDirAll path : Run α Unit) :=
  .bind .step fun _ => .onTree _

theorem removeDirAll_keepsSettings (path : Path) : KeepsSettings (removeDirAll path : Run α Unit) :=
  .bind .step fun _ => .onTree _

theorem writeFile_keepsSettings (path : Path) (data : α) : KeepsSettings (writeFile path data) :=
  .bind .step fun _ => .onTree _

theorem removeIfExists_keepsSettings (path : Path) :
    KeepsSettings (removeIfExists path : Run α Unit) :=
  .bind .get fun _ => .ite (removeDirAll_keepsSettings path) (.pure ())

theorem copyEntries_keepsSettings {copyDir : Path → Path → Run α Unit}
    (h : ∀ source destination, KeepsSettings (copyDir source destination))
    (source destination : Path) (names : List String) :
    KeepsSettings (copyEntries copyDir source destination names) := by
  induction names with
  | nil => exact .pure ()
  | cons name rest ih =>
    refine .bind .get fun w => ?_
    dsimp only
    split
    · exact .bind (h _ _) fun _ => ih
    · exact .bind (writeFile_keepsSettings _ _) fun _ => ih
    · exact .bind (.throw _) fun _ => ih

theorem readDir_keepsSettings (path : Path) : KeepsSettings (readDir path : Run α (List String)) := by
  refine .bind .get fun w => ?_
  split
  · exact .pure _
  · exact .throw _
  · exact .throw _

theorem copyDirAllFrom_keepsSettings (depth : Nat) (source destination : Path) :
    KeepsSettings (copyDirAllFrom depth source destination : Run α Unit) := by
  induction depth generalizing source destination with
  | zero => exact .throw _
  | succ depth ih =>
    exact .bind (createDirAll_keepsSettings destination) fun _ =>
      .bind (readDir_keepsSettings source) fun names =>
        copyEntries_keepsSettings ih source destination names

theorem copyDirAll_keepsSettings (source destination : Path) :
    KeepsSettings (copyDirAll source destination : Run α Unit) :=
  copyDirAllFrom_keepsSettings 4096 source destination

theorem loadRegistry_keepsSettings : KeepsSettings (loadRegistry env) := by
  refine .bind .get fun w => ?_
  split
  · exact .pure _
  · exact .throw _
  · split
    · exact .pure _
    · split
      · exact .pure _
      · exact .throw _

theorem storeRegistry_keepsSettings (registry : InstalledPluginRegistry) :
    KeepsSettings (storeRegistry env registry) := by
  refine .bind .step fun _ => .bind .step fun _ => ?_
  intro settings enabled w hw
  exact hw

theorem syncBundledPlugin_keepsSettings (state : SyncState) (sourceRoot : Path) :
    KeepsSettings (syncBundledPlugin env config state sourceRoot) := by
  refine .bind .get fun w => .bind (.liftResult _) fun manifest => ?_
  refine .ite ?_ (.pure _)
  exact .bind (removeIfExists_keepsSettings _) fun _ =>
    .bind (copyDirAll_keepsSettings _ _) fun _ => .pure _

theorem syncBundledFrom_keepsSettings (state : SyncState) (roots : List Path) :
    KeepsSettings (syncBundledFrom env config state roots) := by
  induction roots generalizing state with
  | nil => exact .pure state
  | cons root roots ih =>
    exact .bind (syncBundledPlugin_keepsSettings env config state root) fun next => ih next

theorem pruneStaleFrom_keepsSettings (state : SyncState)
    (records : List (String × InstalledPluginRecord)) :
    KeepsSettings (pruneStaleFrom state records : Run α SyncState) := by
  induction records generalizing state with
  | nil => exact .pure state
  | cons e records ih =>
    obtain ⟨id, record⟩ := e
    unfold pruneStaleFrom
    exact .ite (.bind (removeIfExists_keepsSettings _) fun _ => ih _) (ih state)

theorem syncBundledPlugins_keepsSettings : KeepsSettings (syncBundledPlugins env config) := by
  refine .bind .get fun w => .bind (.liftResult _) fun roots => ?_
  refine .bind (loadRegistry_keepsSettings env) fun registry => ?_
  refine .bind (syncBundledFrom_keepsSettings env config _ roots) fun state => ?_
  refine .bind (pruneStaleFrom_keepsSettings _ _) fun state => ?_
  exact .ite (storeRegistry_keepsSettings env _) (.pure ())

theorem discoverInstalled_keepsSettings :
    KeepsSettings (discoverInstalledPluginsWithFailures env config) := by
  refine .bind (loadRegistry_keepsSettings env) fun registry => .bind .get fun w => ?_
  refine .bind (.liftResult _) fun dirs => ?_
  exact .ite (.bind (storeRegistry_keepsSettings env _) fun _ => .pure _) (.pure _)

theorem discoverExternal_keepsSettings (existing : List PluginMetadata) :
    KeepsSettings (discoverExternalDirectoryPluginsWithFailures env config existing) :=
  .bind .get fun _ => .bind (.liftResult _) fun _ => .pure _

theorem pluginRegistry_keepsSettings : KeepsSettings (pluginRegistry env config) := by
  refine .bind (syncBundledPlugins_keepsSettings env config) fun _ => ?_
  refine .bind (discoverInstalled_keepsSettings env config) fun installed => ?_
  refine .bind (discoverExternal_keepsSettings env config _) fun external => ?_
  exact .ite (.throw _) (.pure _)

theorem ensureKnownPlugin_keepsSettings (pluginId : String) :
    KeepsSettings (ensureKnownPlugin env config pluginId) :=
  .bind (pluginRegistry_keepsSettings env config) fun _ => .ite (.pure ()) (.throw _)

end Stores

variable {w w' : World α} {m : Run α β} {b : β}

theorem KeepsSettings.ok (h : KeepsSettings m) (hrun : m w = .ok b w') :
    w'.settingsFile = w.settingsFile ∧ w'.enabledPlugins = w.enabledPlugins := by
  have hends := h w.settingsFile w.enabledPlugins w ⟨rfl, rfl⟩
  rw [hrun] at hends
  exact hends

theorem bind_ok {f : β → Run α γ} {w'' : World α} {c : γ} (h : (m >>= f) w = .ok c w'') :
    ∃ b w', m w = .ok b w' ∧ f b w' = .ok c w'' := by
  change EStateM.bind m f w = .ok c w'' at h
  unfold EStateM.bind at h
  split at h
  · rename_i b w' hm
    exact ⟨b, w', hm, h⟩
  · cases h

theorem liftResult_ok {r : Except PluginError β} (h : (liftResult r : Run α β) w = .ok b w') :
    r = .ok b ∧ w' = w := by
  cases r with
  | error e => cases h
  | ok c =>
    cases h
    exact ⟨rfl, rfl⟩

section Writes

variable {env : Environment α} {config : PluginManagerConfig}

theorem writeEnabledState_ok {id : String} {enabled : Option Bool}
    (h : writeEnabledState env config id enabled w = .ok () w') :
    ∃ root, settingsRoot env config w.settingsFile = .ok root ∧
      w'.settingsFile = .contents (env.toStringPretty (.object (setEnabledState id enabled root))) ∧
      w'.enabledPlugins = w.enabledPlugins := by
  obtain ⟨_, w₁, hstep, hafterStep⟩ := bind_ok h
  obtain ⟨w₂, w₃, hget, hafterGet⟩ := bind_ok hafterStep
  cases hget
  obtain ⟨root, w₄, hroot, hafterRead⟩ := bind_ok hafterGet
  obtain ⟨hread, rfl⟩ := liftResult_ok hroot
  obtain ⟨_, w₅, hsecond, hwrite⟩ := bind_ok hafterRead
  cases hwrite
  have hfirst := KeepsSettings.step.ok hstep
  have hlast := KeepsSettings.step.ok hsecond
  refine ⟨root, hfirst.1 ▸ hread, rfl, ?_⟩
  exact hlast.2.trans hfirst.2

end Writes

inductive Call where
  | enable (pluginId : String)
  | disable (pluginId : String)
  | uninstall (pluginId : String)
  deriving DecidableEq

namespace Call

def id : Call → String
  | enable pluginId => pluginId
  | disable pluginId => pluginId
  | uninstall pluginId => pluginId

def state : Call → Option Bool
  | enable _ => some true
  | disable _ => some false
  | uninstall _ => none

def run (env : Environment α) (config : PluginManagerConfig) : Call → Run α Unit
  | enable pluginId => Plugins.enable env config pluginId
  | disable pluginId => Plugins.disable env config pluginId
  | uninstall pluginId => Plugins.uninstall env config pluginId

end Call

def withState (id : String) (state : Option β) (map : List (String × β)) : List (String × β) :=
  match state with
  | some value => insertEntry id value map
  | none => removeEntry map id

def runCalls (env : Environment α) (config : PluginManagerConfig) : List Call → Run α Unit
  | [] => pure ()
  | call :: calls => do
    call.run env config
    runCalls env config calls

theorem call_ok {env : Environment α} {config : PluginManagerConfig} {call : Call}
    (h : call.run env config w = .ok () w') :
    ∃ root, settingsRoot env config w.settingsFile = .ok root ∧
      w'.settingsFile =
        .contents (env.toStringPretty (.object (setEnabledState call.id call.state root))) ∧
      w'.enabledPlugins = withState call.id call.state w.enabledPlugins := by
  have hset : ∀ {id : String} {value : Bool} {check : Run α Unit}, KeepsSettings check →
      (check >>= fun _ => writeEnabledState env config id (some value) >>= fun _ =>
        setEnabled id value) w = .ok () w' →
      ∃ root, settingsRoot env config w.settingsFile = .ok root ∧
        w'.settingsFile =
          .contents (env.toStringPretty (.object (setEnabledState id (some value) root))) ∧
        w'.enabledPlugins = withState id (some value) w.enabledPlugins := by
    intro id value check hcheck hrun
    obtain ⟨_, w₁, hfirst, hrest⟩ := bind_ok hrun
    obtain ⟨_, w₂, hwrite, hlast⟩ := bind_ok hrest
    obtain ⟨root, hroot, hfile, hmap⟩ := writeEnabledState_ok hwrite
    obtain ⟨hsettings, henabled⟩ := hcheck.ok hfirst
    cases hlast
    refine ⟨root, hsettings ▸ hroot, hfile, ?_⟩
    change insertEntry id value w₂.enabledPlugins = insertEntry id value w.enabledPlugins
    rw [hmap, henabled]
  cases call with
  | enable id => exact hset (ensureKnownPlugin_keepsSettings env config id) h
  | disable id => exact hset (ensureKnownPlugin_keepsSettings env config id) h
  | uninstall id =>
    obtain ⟨registry, w₁, hload, hfound⟩ := bind_ok h
    generalize getEntry registry id = found at hfound
    cases found with
    | none => cases hfound
    | some record =>
      dsimp only at hfound
      split at hfound
      · cases hfound
      · obtain ⟨_, w₂, hremove, hafterRemove⟩ := bind_ok hfound
        obtain ⟨_, w₃, hstore, hafterStore⟩ := bind_ok hafterRemove
        obtain ⟨_, w₄, hwrite, hlast⟩ := bind_ok hafterStore
        cases hlast
        obtain ⟨root, hroot, hfile, hmap⟩ := writeEnabledState_ok hwrite
        have hfirst := (loadRegistry_keepsSettings env).ok hload
        have hsecond := (removeIfExists_keepsSettings _).ok hremove
        have hthird := (storeRegistry_keepsSettings env _).ok hstore
        have hsettings : w₃.settingsFile = w.settingsFile :=
          hthird.1.trans (hsecond.1.trans hfirst.1)
        have henabled : w₃.enabledPlugins = w.enabledPlugins :=
          hthird.2.trans (hsecond.2.trans hfirst.2)
        refine ⟨root, hsettings ▸ hroot, hfile, ?_⟩
        change removeEntry w₄.enabledPlugins id = removeEntry w.enabledPlugins id
        rw [hmap, henabled]

end DbClinic.Plugins
