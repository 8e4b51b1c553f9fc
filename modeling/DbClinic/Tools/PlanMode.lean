import DbClinic.Runtime.SerdeText

/-!
Plan mode. Entering it sets `permissions.defaultMode` of the local settings to `plan` and
keeps the mode that was there in a file of its own; leaving it puts that mode back. What the
file cannot tell apart is not put back: a mode that is null is taken for none, and an empty
or missing table of permissions, or one that is no table, for the same.
-/

namespace DbClinic.Tools

open DbClinic.Serde
open DbClinic.Runtime (KeyOrdered getEntry getEntry_filter_ne getEntry_insertEntry insertEntry trim)

def walkNested (value : Value) : List String → Option Value
  | [] => some value
  | key :: rest => (value.get key).bind fun inner => walkNested inner rest

def getNestedValue (root : List (String × Value)) : List String → Option Value
  | [] => none
  | first :: rest => (getEntry root first).bind fun value => walkNested value rest

/-- The entries of an object; another value is replaced by an empty one. -/
def objectEntries : Option Value → List (String × Value)
  | some (.object entries) => entries
  | _ => []

/-- An empty path is not allowed; the source panics there. -/
def setNestedValue (root : List (String × Value)) (path : List String) (newValue : Value) :
    List (String × Value) :=
  match path with
  | [] => root
  | [first] => insertEntry first newValue root
  | first :: next :: rest =>
    let map := objectEntries (getEntry root first)
    insertEntry first (.object (setNestedValue map (next :: rest) newValue)) root

def removeEntry (key : String) (root : List (String × Value)) : List (String × Value) :=
  root.filter fun e => e.1 ≠ key

/-- The map without the value, and whether there was one. An object that becomes empty is
removed as well. -/
def removeNestedValue (root : List (String × Value)) :
    List String → List (String × Value) × Bool
  | [] => (root, false)
  | [first] => (removeEntry first root, (getEntry root first).isSome)
  | first :: next :: rest =>
    match getEntry root first with
    | some (.object map) =>
      let inner := removeNestedValue map (next :: rest)
      if inner.2 ∧ inner.1 = [] then (removeEntry first root, inner.2)
      else (insertEntry first (.object inner.1) root, inner.2)
    | _ => (root, false)

structure PlanModeState where
  hadLocalOverride : Bool
  previousLocalMode : Option Value

namespace PlanModeState

def toValue (state : PlanModeState) : Value := .object [
  ("hadLocalOverride", .bool state.hadLocalOverride),
  ("previousLocalMode", state.previousLocalMode.getD .null)]

/-- An `Option<Value>`: null is `None`. -/
def optionalValue : Value → Option Value
  | .null => none
  | value => some value

/-- The fields by their names, or by their places in an array. -/
def fromValue : Value → Option PlanModeState
  | .object entries => do
    let hadLocalOverride ← (getEntry entries "hadLocalOverride").bind Value.asBool
    return ⟨hadLocalOverride, (getEntry entries "previousLocalMode").bind optionalValue⟩
  | .array [.bool hadLocalOverride, value] => some ⟨hadLocalOverride, optionalValue value⟩
  | _ => none

end PlanModeState

/-- The texts of the settings and of the state, where there are such files. -/
structure PlanModeDir where
  settings : Option (List Char)
  state : Option (List Char)

structure PlanModeOutput where
  success : Bool
  operation : String
  changed : Bool
  active : Bool
  managed : Bool
  message : String
  settingsPath : String
  statePath : String
  previousLocalMode : Option Value
  currentLocalMode : Option Value

def permissionDefaultModePath : List String := ["permissions", "defaultMode"]

def settingsPath (cwd : String) : String := cwd ++ "/.claw/settings.local.json"

def planModeStateFile (cwd : String) : String := cwd ++ "/.claw/tool-state/plan-mode.json"

def isPlan : Option Value → Bool
  | some (.string value) => value = "plan"
  | _ => false

section Calls

variable (json : SerdeText) (cwd : String)

def readJsonObject (file : Option (List Char)) : Except String (List (String × Value)) :=
  match file with
  | none => .ok []
  | some contents =>
    if trim contents = [] then .ok []
    else
      match json.fromStr contents with
      | .error e => .error e
      | .ok (.object entries) => .ok entries
      | .ok _ => .error "config file must contain a JSON object"

/-- The text of an error of the state is that of the library. A text that names a field twice
does not come up, since the tool writes each field once. -/
def readPlanModeState (file : Option (List Char)) : Except String (Option PlanModeState) :=
  match file with
  | none => .ok none
  | some contents =>
    if trim contents = [] then .ok none
    else
      match json.fromStr contents with
      | .error e => .error e
      | .ok value =>
        match PlanModeState.fromValue value with
        | some state => .ok (some state)
        | none => .error "invalid plan mode state"

def writeJsonObject (root : List (String × Value)) : List Char :=
  json.toStringPretty (.object root)

def writePlanModeState (state : PlanModeState) : List Char := json.toStringPretty state.toValue

def executeEnterPlanMode (dir : PlanModeDir) : Except String (PlanModeDir × PlanModeOutput) := do
  let document ← readJsonObject json dir.settings
  let currentLocalMode := getNestedValue document permissionDefaultModePath
  let state ← readPlanModeState json dir.state
  if isPlan currentLocalMode then
    match state with
    | some state =>
      return (dir, {
        success := true, operation := "enter", changed := false, active := true, managed := true
        message := "Plan mode override is already active for this worktree."
        settingsPath := settingsPath cwd, statePath := planModeStateFile cwd
        previousLocalMode := state.previousLocalMode
        currentLocalMode := currentLocalMode })
    | none =>
      return (dir, {
        success := true, operation := "enter", changed := false, active := true, managed := false
        message := "Worktree-local plan mode is already enabled outside EnterPlanMode; " ++
          "leaving it unchanged."
        settingsPath := settingsPath cwd, statePath := planModeStateFile cwd
        previousLocalMode := none
        currentLocalMode := currentLocalMode })
  else
    -- a state that is left over is cleared first, and then written anew
    let state : PlanModeState := ⟨currentLocalMode.isSome, currentLocalMode⟩
    let document := setNestedValue document permissionDefaultModePath (.string "plan")
    return (⟨some (writeJsonObject json document), some (writePlanModeState json state)⟩, {
      success := true, operation := "enter", changed := true, active := true, managed := true
      message := "Enabled worktree-local plan mode override."
      settingsPath := settingsPath cwd, statePath := planModeStateFile cwd
      previousLocalMode := state.previousLocalMode
      currentLocalMode := getNestedValue document permissionDefaultModePath })

def restoreMode (state : PlanModeState) (document : List (String × Value)) :
    List (String × Value) :=
  if state.hadLocalOverride then
    match state.previousLocalMode with
    | some mode => setNestedValue document permissionDefaultModePath mode
    | none => (removeNestedValue document permissionDefaultModePath).1
  else (removeNestedValue document permissionDefaultModePath).1

def executeExitPlanMode (dir : PlanModeDir) : Except String (PlanModeDir × PlanModeOutput) := do
  let document ← readJsonObject json dir.settings
  let currentLocalMode := getNestedValue document permissionDefaultModePath
  match ← readPlanModeState json dir.state with
  | none =>
    return (dir, {
      success := true, operation := "exit", changed := false, active := isPlan currentLocalMode
      managed := false
      message := "No EnterPlanMode override is active for this worktree."
      settingsPath := settingsPath cwd, statePath := planModeStateFile cwd
      previousLocalMode := none
      currentLocalMode := currentLocalMode })
  | some state =>
    if isPlan currentLocalMode then
      let document := restoreMode state document
      return (⟨some (writeJsonObject json document), none⟩, {
        success := true, operation := "exit", changed := true, active := false, managed := false
        message := "Restored the prior worktree-local plan mode setting."
        settingsPath := settingsPath cwd, statePath := planModeStateFile cwd
        previousLocalMode := state.previousLocalMode
        currentLocalMode := getNestedValue document permissionDefaultModePath })
    else
      return ({ dir with state := none }, {
        success := true, operation := "exit", changed := false, active := false
        managed := false
        message := "Cleared stale EnterPlanMode state because plan mode was already changed " ++
          "outside the tool."
        settingsPath := settingsPath cwd, statePath := planModeStateFile cwd
        previousLocalMode := state.previousLocalMode
        currentLocalMode := currentLocalMode })

end Calls

section Maps

variable {root : List (String × Value)} {key : String}

theorem getEntry_removeEntry (key : String) (root : List (String × Value)) (other : String) :
    getEntry (removeEntry key root) other = if key = other then none else getEntry root other :=
  getEntry_filter_ne key root other

theorem keyOrdered_removeEntry (h : KeyOrdered root) : KeyOrdered (removeEntry key root) :=
  List.Pairwise.filter _ h

theorem removeEntry_insertEntry (h : KeyOrdered root) (hkey : getEntry root key = none)
    (value : Value) : removeEntry key (insertEntry key value root) = root := by
  apply (keyOrdered_removeEntry (h.insertEntry key value)).ext h
  intro other
  rw [getEntry_removeEntry, getEntry_insertEntry]
  split
  · rename_i heq
    rw [← heq, hkey]
  · rfl

theorem insertEntry_insertEntry (h : KeyOrdered root) (old : Value) {value : Value}
    (hkey : getEntry root key = some value) :
    insertEntry key value (insertEntry key old root) = root := by
  apply ((h.insertEntry key old).insertEntry key value).ext h
  intro other
  rw [getEntry_insertEntry, getEntry_insertEntry]
  split
  · rename_i heq
    rw [← heq, hkey]
  · rfl

end Maps

section Mode

variable (root : List (String × Value))

/-- The table of permissions, empty where there is none. -/
def permissions : List (String × Value) := objectEntries (getEntry root "permissions")

def localMode : Option Value := getNestedValue root permissionDefaultModePath

def withMode (mode : Value) : List (String × Value) :=
  setNestedValue root permissionDefaultModePath mode

def withoutMode : List (String × Value) := (removeNestedValue root permissionDefaultModePath).1

theorem withMode_eq (mode : Value) : withMode root mode =
    insertEntry "permissions" (.object (insertEntry "defaultMode" mode (permissions root))) root :=
  rfl

theorem localMode_eq : localMode root = getEntry (permissions root) "defaultMode" := by
  have hlocal : localMode root = (getEntry root "permissions").bind fun value =>
      walkNested value ["defaultMode"] := rfl
  have hwalk (value : Value) : walkNested value ["defaultMode"] = value.get "defaultMode" := by
    simp [walkNested]
  rw [hlocal, permissions]
  cases getEntry root "permissions" with
  | none => rfl
  | some value =>
    rw [Option.bind_some, hwalk]
    cases value <;> rfl

theorem permissions_withMode (mode : Value) :
    permissions (withMode root mode) = insertEntry "defaultMode" mode (permissions root) := by
  unfold permissions
  rw [withMode_eq, getEntry_insertEntry, if_pos rfl]
  rfl

theorem localMode_withMode (mode : Value) : localMode (withMode root mode) = some mode := by
  rw [localMode_eq, permissions_withMode, getEntry_insertEntry, if_pos rfl]

theorem withoutMode_withMode (mode : Value) : withoutMode (withMode root mode) =
    if removeEntry "defaultMode" (insertEntry "defaultMode" mode (permissions root)) = [] then
      removeEntry "permissions" (withMode root mode)
    else insertEntry "permissions"
      (.object (removeEntry "defaultMode" (insertEntry "defaultMode" mode (permissions root))))
      (withMode root mode) := by
  have htable : getEntry (withMode root mode) "permissions" =
      some (.object (insertEntry "defaultMode" mode (permissions root))) := by
    rw [withMode_eq, getEntry_insertEntry, if_pos rfl]
  have hmode : getEntry (insertEntry "defaultMode" mode (permissions root)) "defaultMode" =
      some mode := by
    rw [getEntry_insertEntry, if_pos rfl]
  unfold withoutMode permissionDefaultModePath removeNestedValue removeNestedValue
  rw [htable]
  dsimp only
  rw [hmode]
  simp only [Option.isSome_some, true_and]
  split <;> rfl

end Mode

/-- The settings that are found again: their table of permissions is missing, or it is a table
that has a mode that is not null, or no mode but something else. -/
def Restorable (root : List (String × Value)) : Prop :=
  match getEntry root "permissions" with
  | none => True
  | some (.object table) =>
    match getEntry table "defaultMode" with
    | none => table ≠ []
    | some .null => False
    | some _ => True
  | some _ => False

def keptState (root : List (String × Value)) : PlanModeState :=
  ⟨(localMode root).isSome, (localMode root).bind PlanModeState.optionalValue⟩

variable {root : List (String × Value)} {mode : Value}

theorem optionalValue_eq (h : mode ≠ .null) :
    PlanModeState.optionalValue mode = some mode := by
  cases mode <;> first | rfl | exact absurd rfl h

theorem restoreMode_without (doc : List (String × Value))
    (h : (localMode root).bind PlanModeState.optionalValue = none) :
    restoreMode (keptState root) doc = withoutMode doc := by
  unfold restoreMode keptState
  rw [h]
  split <;> rfl

theorem restoreMode_mode (doc : List (String × Value)) (h : localMode root = some mode)
    (hnull : mode ≠ .null) :
    restoreMode (keptState root) doc = withMode doc mode := by
  unfold restoreMode keptState
  rw [h, Option.bind_some, optionalValue_eq hnull]
  rfl

section Restore

variable {root table : List (String × Value)}

theorem removeEntry_ne {key : String} {value : Value} (h : getEntry root key = some value)
    (doc : List (String × Value)) : removeEntry key doc ≠ root := by
  intro heq
  have hnone := getEntry_removeEntry key doc key
  rw [heq, h, if_pos rfl] at hnone
  cases hnone

theorem restoreMode_none (htable : KeyOrdered (permissions root)) (hmode : localMode root = none) :
    restoreMode (keptState root) (withMode root (.string "plan")) =
      if permissions root = [] then removeEntry "permissions" (withMode root (.string "plan"))
      else insertEntry "permissions" (.object (permissions root))
        (withMode root (.string "plan")) := by
  have hkey : getEntry (permissions root) "defaultMode" = none :=
    (localMode_eq root).symm.trans hmode
  have hleft := removeEntry_insertEntry htable hkey (.string "plan")
  rw [restoreMode_without _ (by rw [hmode]; rfl), withoutMode_withMode, hleft]

theorem restoreMode_missing (hroot : KeyOrdered root)
    (hentry : getEntry root "permissions" = none) :
    restoreMode (keptState root) (withMode root (.string "plan")) = root := by
  have hnone : permissions root = [] := by
    unfold permissions
    rw [hentry]
    rfl
  have hmode : localMode root = none := by
    rw [localMode_eq, hnone]
    rfl
  rw [restoreMode_none (hnone ▸ List.Pairwise.nil) hmode, if_pos hnone, withMode_eq]
  exact removeEntry_insertEntry hroot hentry _

theorem restoreMode_some (hroot : KeyOrdered root)
    (hentry : getEntry root "permissions" = some (.object table)) (htable : KeyOrdered table)
    (hmode : getEntry table "defaultMode" = some mode) (hnull : mode ≠ .null) :
    restoreMode (keptState root) (withMode root (.string "plan")) = root := by
  have hpermissions : permissions root = table := by
    unfold permissions
    rw [hentry]
    rfl
  have hlocal : localMode root = some mode := by
    rw [localMode_eq, hpermissions, hmode]
  rw [restoreMode_mode _ hlocal hnull, withMode_eq, permissions_withMode, hpermissions,
    insertEntry_insertEntry htable _ hmode, withMode_eq]
  exact insertEntry_insertEntry hroot _ hentry

theorem restoreMode_null (hmode : localMode root = some .null) :
    restoreMode (keptState root) (withMode root (.string "plan")) ≠ root := by
  intro heq
  have hgone : localMode (withoutMode (withMode root (.string "plan"))) = none := by
    rw [withoutMode_withMode, localMode_eq]
    unfold permissions
    split
    · rw [getEntry_removeEntry, if_pos rfl]
      rfl
    · rw [getEntry_insertEntry, if_pos rfl]
      exact (getEntry_removeEntry _ _ _).trans (if_pos rfl)
  rw [← restoreMode_without _ (by rw [hmode]; rfl), heq, hmode] at hgone
  cases hgone

end Restore

theorem restoreMode_iff (hroot : (Value.object root).Proper) :
    restoreMode (keptState root) (withMode root (.string "plan")) = root ↔ Restorable root := by
  obtain ⟨hordered, -⟩ := proper_object_iff.mp hroot
  unfold Restorable
  cases hentry : getEntry root "permissions" with
  | none => exact iff_of_true (restoreMode_missing hordered hentry) trivial
  | some value =>
    have hpermissions : permissions root = objectEntries (some value) :=
      congrArg objectEntries hentry
    have hlocal := localMode_eq root
    rw [hpermissions] at hlocal
    cases value with
    | object table =>
      have htable : KeyOrdered table := (proper_of_getEntry hroot hentry).1
      dsimp only
      cases hmode : getEntry table "defaultMode" with
      | none =>
        rw [restoreMode_none (hpermissions ▸ htable) (hlocal.trans hmode), hpermissions]
        constructor
        · rintro hback rfl
          exact removeEntry_ne hentry _ hback
        · intro hne
          refine (if_neg hne).trans ?_
          exact insertEntry_insertEntry hordered _ hentry
      | some mode =>
        by_cases hnull : mode = .null
        · subst hnull
          exact iff_of_false (restoreMode_null (hlocal.trans hmode)) id
        · have hback := restoreMode_some hordered hentry htable hmode hnull
          refine iff_of_true hback ?_
          cases mode <;> trivial
    | _ =>
      refine iff_of_false ?_ id
      rw [restoreMode_none (hpermissions ▸ List.Pairwise.nil) hlocal, hpermissions]
      exact removeEntry_ne hentry _

end DbClinic.Tools
