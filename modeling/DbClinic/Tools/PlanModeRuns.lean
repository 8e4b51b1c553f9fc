import DbClinic.Tools.PlanMode

/-!
Calls that enter and leave plan mode, in any order. Between two calls the settings are those
that were found, without a state, or those in plan mode, with the state of the mode before.
-/

namespace DbClinic.Tools

open DbClinic.Serde
open DbClinic.Runtime (getEntry getEntry_cons getEntry_insertEntry insertEntry mem_insertEntry
  mem_of_getEntry trim)

inductive PlanModeCall where
  | enter
  | exit
  deriving DecidableEq

/-- The files after a call; one that fails has not changed them. -/
def PlanModeCall.run (json : SerdeText) (cwd : String) (dir : PlanModeDir) :
    PlanModeCall → PlanModeDir
  | enter => (executeEnterPlanMode json cwd dir).toOption.elim dir Prod.fst
  | exit => (executeExitPlanMode json cwd dir).toOption.elim dir Prod.fst

def runPlanMode (json : SerdeText) (cwd : String) (calls : List PlanModeCall)
    (dir : PlanModeDir) : PlanModeDir :=
  calls.foldl (PlanModeCall.run json cwd) dir

theorem runPlanMode_concat (json : SerdeText) (cwd : String) (calls : List PlanModeCall)
    (call : PlanModeCall) (dir : PlanModeDir) : runPlanMode json cwd (calls ++ [call]) dir =
      call.run json cwd (runPlanMode json cwd calls dir) := by
  unfold runPlanMode
  rw [List.foldl_append]
  rfl

/-- The settings differ in the mode alone, which is `plan`. -/
def OnlyModeChanged (root doc : List (String × Value)) : Prop :=
  (∀ value, getEntry root "permissions" = some value → ∃ table, value = .object table) ∧
  (∃ table, getEntry doc "permissions" = some (.object table)) ∧
  localMode doc = some (.string "plan") ∧
  (∀ key ≠ "defaultMode", getEntry (permissions doc) key = getEntry (permissions root) key) ∧
  ∀ key ≠ "permissions", getEntry doc key = getEntry root key

variable {root : List (String × Value)}

theorem onlyModeChanged_withMode
    (h : ∀ value, getEntry root "permissions" = some value → ∃ table, value = .object table) :
    OnlyModeChanged root (withMode root (.string "plan")) := by
  refine ⟨h, ⟨_, (getEntry_insertEntry _ _ _ _).trans (if_pos rfl)⟩, localMode_withMode _ _,
    ?_, ?_⟩
  · intro key hkey
    rw [permissions_withMode, getEntry_insertEntry, if_neg hkey.symm]
  · intro key hkey
    rw [withMode_eq, getEntry_insertEntry, if_neg hkey.symm]

theorem Restorable.table (h : Restorable root) {value : Value}
    (hentry : getEntry root "permissions" = some value) : ∃ table, value = .object table := by
  unfold Restorable at h
  rw [hentry] at h
  cases value with
  | object table => exact ⟨table, rfl⟩
  | _ => exact h.elim

section Files

variable {json : SerdeText} {root : List (String × Value)} {value : Value}

/-- A value that is read as it was written. -/
structure Stored (json : SerdeText) (value : Value) : Prop where
  proper : value.Proper
  depth : value.depth ≤ depthLimit
  floats : value.mapFloats json.refloat = value

theorem Stored.read (hjson : json.Lawful) (h : Stored json value) :
    json.fromStr (json.toStringPretty value) = .ok value := by
  have hback : json.fromStr (json.toStringPretty value ++ []) = _ :=
    hjson.readsBack h.proper h.depth (List.forall_mem_nil _)
  rwa [List.append_nil, h.floats] at hback

theorem Stored.not_blank (hjson : json.Lawful) (h : Stored json value) :
    trim (json.toStringPretty value) ≠ [] :=
  fun hblank => hjson.blank hblank (h.read hjson)

theorem Stored.entry (h : Stored json (.object root)) {key : String}
    (hentry : getEntry root key = some value) : Stored json value where
  proper := proper_of_getEntry h.proper hentry
  depth := (depth_of_getEntry hentry).le.trans h.depth
  floats := mapFloats_object_iff.mp h.floats _ (mem_of_getEntry hentry)

theorem Stored.insert (h : Stored json (.object root)) (hval : Stored json value)
    (hdepth : value.depth < depthLimit) (key : String) :
    Stored json (.object (insertEntry key value root)) where
  proper := proper_insertEntry hval.proper h.proper
  depth := depth_insertEntry hdepth h.depth
  floats := by
    apply mapFloats_object_iff.mpr
    intro e he
    rcases mem_insertEntry he with rfl | he
    · exact hval.floats
    · exact mapFloats_object_iff.mp h.floats e he

theorem Stored.remove (h : Stored json (.object root)) (key : String) :
    Stored json (.object (removeEntry key root)) where
  proper := proper_filter h.proper
  depth := depth_filter h.depth
  floats := by
    apply mapFloats_object_iff.mpr
    intro e he
    exact mapFloats_object_iff.mp h.floats e (List.mem_filter.mp he).1

theorem stored_nil : Stored json (.object []) := ⟨proper_nil, by decide, rfl⟩

theorem Stored.permissions (h : Stored json (.object root)) :
    Stored json (.object (permissions root)) ∧
      (Value.object (permissions root)).depth < depthLimit := by
  have hempty : Stored json (.object []) ∧ (Value.object []).depth < depthLimit :=
    ⟨stored_nil, by decide⟩
  unfold Tools.permissions
  cases hentry : getEntry root "permissions" with
  | none => exact hempty
  | some value =>
    cases value with
    | object table =>
      exact ⟨h.entry hentry, Nat.lt_of_lt_of_le (depth_of_getEntry hentry) h.depth⟩
    | _ => exact hempty

theorem Stored.withMode (h : Stored json (.object root)) :
    Stored json (.object (withMode root (.string "plan"))) := by
  obtain ⟨htable, hdepth⟩ := h.permissions
  have hplan : Stored json (.string "plan") := ⟨trivial, by decide, rfl⟩
  have hinner := htable.insert hplan (by decide) "defaultMode"
  refine h.insert hinner ?_ "permissions"
  have hle : (Value.object (insertEntry "defaultMode" (.string "plan")
      (Tools.permissions root))).depth ≤ 126 :=
    depth_insertEntry (by decide) (Nat.le_of_lt_succ hdepth)
  exact Nat.lt_succ_of_le hle

theorem Stored.withoutMode (h : Stored json (.object root)) :
    Stored json (.object (withoutMode root)) := by
  unfold Tools.withoutMode permissionDefaultModePath removeNestedValue removeNestedValue
  split
  · rename_i table hentry
    dsimp only
    split
    · exact h.remove "permissions"
    · have htable := (h.entry hentry).remove "defaultMode"
      have hdepth := Nat.lt_of_lt_of_le (depth_of_getEntry hentry) h.depth
      refine h.insert htable ?_ "permissions"
      exact Nat.lt_succ_of_le (depth_filter (Nat.le_of_lt_succ hdepth))
  · exact h

theorem readJsonObject_written (hjson : json.Lawful) (h : Stored json (.object root)) :
    readJsonObject json (some (writeJsonObject json root)) = .ok root := by
  unfold readJsonObject writeJsonObject
  dsimp only
  rw [if_neg (h.not_blank hjson), h.read hjson]

def foundState (root : List (String × Value)) : PlanModeState :=
  ⟨(localMode root).isSome, localMode root⟩

theorem Stored.mode (h : Stored json (.object root)) :
    Stored json ((localMode root).getD .null) ∧
      ((localMode root).getD .null).depth < depthLimit := by
  rw [localMode_eq]
  obtain ⟨htable, hdepth⟩ := h.permissions
  cases hmode : getEntry (Tools.permissions root) "defaultMode" with
  | none => exact ⟨⟨trivial, by decide, rfl⟩, by decide⟩
  | some mode => exact ⟨htable.entry hmode, (depth_of_getEntry hmode).trans hdepth⟩

theorem Stored.state (h : Stored json (.object root)) : Stored json (foundState root).toValue := by
  obtain ⟨hmode, hdepth⟩ := h.mode
  have hkeys : ["hadLocalOverride", "previousLocalMode"].Pairwise (· < ·) := by
    decide +kernel
  refine ⟨⟨List.pairwise_map.mp hkeys, trivial, hmode.proper, trivial⟩, ?_, ?_⟩
  · apply depth_object_le.mpr
    refine ⟨by decide, ?_⟩
    simpa [foundState, Value.depth] using ⟨by decide, hdepth⟩
  · apply mapFloats_object_iff.mpr
    simpa [foundState, Value.mapFloats] using hmode.floats

theorem fromValue_toValue (root : List (String × Value)) :
    PlanModeState.fromValue (foundState root).toValue = some (keptState root) := by
  unfold foundState keptState PlanModeState.toValue PlanModeState.fromValue
  dsimp only
  simp only [getEntry_cons]
  cases localMode root with
  | none => rfl
  | some mode => rfl

theorem readPlanModeState_written (hjson : json.Lawful) (h : Stored json (.object root)) :
    readPlanModeState json (some (writePlanModeState json (foundState root))) =
      .ok (some (keptState root)) := by
  unfold readPlanModeState writePlanModeState
  dsimp only
  rw [if_neg (h.state.not_blank hjson), h.state.read hjson]
  dsimp only
  rw [fromValue_toValue]

end Files

section Steps

variable {json : SerdeText} {cwd : String} {root : List (String × Value)} {dir : PlanModeDir}

def planDir (json : SerdeText) (root : List (String × Value)) : PlanModeDir where
  settings := some (writeJsonObject json (withMode root (.string "plan")))
  state := some (writePlanModeState json (foundState root))

/-- The files before and after it. -/
def Found (json : SerdeText) (root : List (String × Value)) (dir : PlanModeDir) : Prop :=
  readJsonObject json dir.settings = .ok root ∧ dir.state = none

theorem isPlan_eq_true {mode : Option Value} :
    isPlan mode = true ↔ mode = some (.string "plan") := by
  unfold isPlan
  split
  · simp
  · rename_i hnot
    constructor
    · exact nofun
    · intro h
      exact absurd h (hnot "plan")

theorem enter_found (hmode : localMode root ≠ some (.string "plan")) (h : Found json root dir) :
    PlanModeCall.enter.run json cwd dir = planDir json root := by
  have hplan : isPlan (getNestedValue root permissionDefaultModePath) = false :=
    Bool.eq_false_iff.mpr fun hplan => hmode (isPlan_eq_true.mp hplan)
  unfold PlanModeCall.run executeEnterPlanMode
  rw [h.1, h.2]
  unfold readPlanModeState
  simp only [bind, Except.bind, hplan]
  rfl

theorem exit_found (h : Found json root dir) : PlanModeCall.exit.run json cwd dir = dir := by
  unfold PlanModeCall.run executeExitPlanMode
  rw [h.1, h.2]
  rfl

theorem isPlan_planDir : isPlan (getNestedValue (withMode root (.string "plan"))
    permissionDefaultModePath) = true :=
  isPlan_eq_true.mpr (localMode_withMode root _)

variable (hjson : json.Lawful) (hroot : Stored json (.object root))

include hjson hroot

theorem read_planDir :
    readJsonObject json (planDir json root).settings = .ok (withMode root (.string "plan")) :=
  readJsonObject_written hjson hroot.withMode

theorem enter_planDir :
    PlanModeCall.enter.run json cwd (planDir json root) = planDir json root := by
  unfold PlanModeCall.run executeEnterPlanMode
  rw [read_planDir hjson hroot, show (planDir json root).state = some _ from rfl,
    readPlanModeState_written hjson hroot]
  simp only [bind, Except.bind, isPlan_planDir]
  rfl

theorem exit_planDir : PlanModeCall.exit.run json cwd (planDir json root) =
    ⟨some (writeJsonObject json
      (restoreMode (keptState root) (withMode root (.string "plan")))), none⟩ := by
  unfold PlanModeCall.run executeExitPlanMode
  rw [read_planDir hjson hroot, show (planDir json root).state = some _ from rfl,
    readPlanModeState_written hjson hroot]
  simp only [bind, Except.bind, isPlan_planDir]
  rfl

theorem found_or_plan (hmode : localMode root ≠ some (.string "plan"))
    (hfound : Found json root dir) (hrestorable : Restorable root) (calls : List PlanModeCall) :
    Found json root (runPlanMode json cwd calls dir) ∨
      runPlanMode json cwd calls dir = planDir json root := by
  induction calls using List.reverseRecOn with
  | nil => exact .inl hfound
  | append_singleton calls call ih =>
    rw [runPlanMode_concat]
    rcases ih with ih | ih
    · cases call with
      | enter => exact .inr (enter_found hmode ih)
      | exit =>
        rw [exit_found ih]
        exact .inl ih
    · rw [ih]
      cases call with
      | enter => exact .inr (enter_planDir hjson hroot)
      | exit =>
        rw [exit_planDir hjson hroot, (restoreMode_iff hroot.proper).mpr hrestorable]
        exact .inl ⟨readJsonObject_written hjson hroot, rfl⟩

end Steps

theorem restorable_of_mode {mode : Value} (hmode : localMode root = some mode)
    (hnull : mode ≠ .null) : Restorable root := by
  rw [localMode_eq] at hmode
  unfold Restorable
  unfold permissions at hmode
  cases hentry : getEntry root "permissions" with
  | none => trivial
  | some value =>
    rw [hentry] at hmode
    cases value with
    | object table =>
      dsimp only
      rw [show getEntry table "defaultMode" = some mode from hmode]
      cases mode <;> trivial
    | _ => cases hmode

/-- After every call that leaves plan mode the settings are those that were found, without a
state; after every one that enters it they differ in the mode alone. -/
def KeepsSettings (json : SerdeText) (cwd : String) (root : List (String × Value))
    (dir : PlanModeDir) : Prop :=
  ∀ calls,
    Found json root (runPlanMode json cwd (calls ++ [.exit]) dir) ∧
    ∃ doc, readJsonObject json (runPlanMode json cwd (calls ++ [.enter]) dir).settings = .ok doc ∧
      OnlyModeChanged root doc

section Keeps

variable {json : SerdeText} {cwd : String} {root : List (String × Value)} {dir : PlanModeDir}

theorem keepsSettings_of_restorable (hjson : json.Lawful) (hroot : Stored json (.object root))
    (hmode : localMode root ≠ some (.string "plan")) (hfound : Found json root dir)
    (h : Restorable root) : KeepsSettings json cwd root dir := by
  intro calls
  have hread := readJsonObject_written hjson hroot.withMode
  rw [runPlanMode_concat, runPlanMode_concat]
  have hbefore : _ ∨ runPlanMode json cwd calls dir = _ :=
    found_or_plan hjson hroot hmode hfound h calls
  refine ⟨?_, withMode root (.string "plan"), ?_, onlyModeChanged_withMode fun _ => h.table⟩
  · rcases hbefore with hbefore | hbefore
    · rw [exit_found hbefore]
      exact hbefore
    · rw [hbefore, exit_planDir hjson hroot, (restoreMode_iff hroot.proper).mpr h]
      exact ⟨readJsonObject_written hjson hroot, rfl⟩
  · rcases hbefore with hbefore | hbefore
    · rw [enter_found hmode hbefore]
      exact hread
    · rw [hbefore, enter_planDir hjson hroot]
      exact hread

theorem restorable_of_keepsSettings (hjson : json.Lawful) (hroot : Stored json (.object root))
    (hmode : localMode root ≠ some (.string "plan")) (hfound : Found json root dir)
    (h : KeepsSettings json cwd root dir) : Restorable root := by
  by_contra hnot
  have hexit := (h [.enter]).1.1
  rw [runPlanMode_concat] at hexit
  have henter : runPlanMode json cwd [.enter] dir = planDir json root :=
    enter_found hmode hfound
  rw [henter, exit_planDir hjson hroot] at hexit
  have hnone : (localMode root).bind PlanModeState.optionalValue = none := by
    cases hlocal : localMode root with
    | none => rfl
    | some mode =>
      by_cases hnull : mode = .null
      · rw [hnull]
        rfl
      · exact absurd (restorable_of_mode hlocal hnull) hnot
  have hstored : Stored json
      (.object (restoreMode (keptState root) (withMode root (.string "plan")))) := by
    rw [restoreMode_without _ hnone]
    exact hroot.withMode.withoutMode
  have hsame := (readJsonObject_written hjson hstored).symm.trans hexit
  exact hnot ((restoreMode_iff hroot.proper).mp (Except.ok.inj hsame))

theorem stored_of_read (hjson : json.Lawful) {file : Option (List Char)}
    (h : readJsonObject json file = .ok root)
    (hfloats : (Value.object root).mapFloats json.refloat = .object root) :
    Stored json (.object root) := by
  unfold readJsonObject at h
  split at h
  · cases h
    exact stored_nil
  · split at h
    · cases h
      exact stored_nil
    · split at h
      · cases h
      · rename_i hread
        cases h
        exact ⟨(hjson.reads hread).1, (hjson.reads hread).2, hfloats⟩
      · cases h

end Keeps

/-- The settings file of a worktree, before any call. -/
def settingsDir (root : List (String × Value)) : PlanModeDir :=
  ⟨some (writeJsonObject runtimeText root), none⟩

theorem found_settingsDir (h : Stored runtimeText (.object root)) :
    Found runtimeText root (settingsDir root) :=
  ⟨readJsonObject_written runtimeText_lawful h, rfl⟩

def nullSettings : List (String × Value) :=
  [("model", .string "opus"), ("permissions", .object [("defaultMode", .null)])]

theorem stored_nullSettings : Stored runtimeText (.object nullSettings) :=
  ⟨by decide +kernel, by decide, mapFloats_id _⟩

/-- The null mode is not put back. -/
theorem nullSettings_lost : Found runtimeText nullSettings (settingsDir nullSettings) ∧
    localMode nullSettings ≠ some (.string "plan") ∧
    ¬KeepsSettings runtimeText "/work" nullSettings (settingsDir nullSettings) := by
  have hfound := found_settingsDir stored_nullSettings
  have hnull : localMode nullSettings = some .null := by
    simp [localMode_eq, permissions, objectEntries, nullSettings]
  have hmode : localMode nullSettings ≠ some (.string "plan") := by
    rw [hnull]
    simp
  have hlost : ¬Restorable nullSettings := by
    simp [Restorable, nullSettings]
  refine ⟨hfound, hmode, ?_⟩
  intro hkeeps
  exact hlost (restorable_of_keepsSettings runtimeText_lawful stored_nullSettings hmode hfound
    hkeeps)

/-- Plan mode keeps exactly the settings that can be found again. -/
theorem planMode_restores_iff {json : SerdeText} (hjson : json.Lawful) (cwd : String)
    {root : List (String × Value)} {dir : PlanModeDir}
    (hsettings : readJsonObject json dir.settings = .ok root) (hstate : dir.state = none)
    (hfloats : (Value.object root).mapFloats json.refloat = .object root)
    (hmode : getNestedValue root permissionDefaultModePath ≠ some (.string "plan")) :
    KeepsSettings json cwd root dir ↔ Restorable root := by
  have hroot := stored_of_read hjson hsettings hfloats
  constructor
  · exact restorable_of_keepsSettings hjson hroot hmode ⟨hsettings, hstate⟩
  · exact keepsSettings_of_restorable hjson hroot hmode ⟨hsettings, hstate⟩

def editSettings : List (String × Value) :=
  [("model", .string "opus"), ("permissions", .object [("defaultMode", .string "acceptEdits")])]

theorem editSettings_kept :
    KeepsSettings runtimeText "/work" editSettings (settingsDir editSettings) ↔
      Restorable editSettings := by
  have hstored : Stored runtimeText (.object editSettings) :=
    ⟨by decide +kernel, by decide, mapFloats_id _⟩
  have hfound := found_settingsDir hstored
  have hedit : localMode editSettings = some (.string "acceptEdits") := by
    simp [localMode_eq, permissions, objectEntries, editSettings]
  have hmode : localMode editSettings ≠ some (.string "plan") := by
    simp [hedit]
  exact planMode_restores_iff runtimeText_lawful "/work" hfound.1 hfound.2 (mapFloats_id _) hmode

end DbClinic.Tools
