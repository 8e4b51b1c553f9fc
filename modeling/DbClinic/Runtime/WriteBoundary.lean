import DbClinic.Lib.FileTree
import DbClinic.Runtime.PermissionEnforcer

/-!
The write check of the enforcer. It compares texts: a path is inside if its text
begins with the text of the root. What follows the root may still climb out of
it, and the check holds what it promises exactly where the path climbs back.
-/

namespace DbClinic

open List

namespace Path

/-- The directories above the start that have been left, and the names entered
since. -/
def climbStep (state : Nat × List String) (name : String) : Nat × List String :=
  if name = ".." then
    if state.2 = [] then (state.1 + 1, []) else (state.1, state.2.dropLast)
  else (state.1, state.2 ++ [name])

def climb (names : List String) : Nat × List String := names.foldl climbStep (0, [])

theorem foldl_climbStep (base names : List String) (state : Nat × List String) :
    names.foldl (fun p c => if c = ".." then p.dropLast else p ++ [c])
        (base.take (base.length - state.1) ++ state.2) =
      base.take (base.length - (names.foldl climbStep state).1) ++
        (names.foldl climbStep state).2 := by
  induction names generalizing state with
  | nil => rfl
  | cons name names ih =>
    obtain ⟨up, entered⟩ := state
    rw [foldl_cons, foldl_cons]
    unfold climbStep
    by_cases hname : name = ".."
    · rw [if_pos hname, if_pos hname]
      by_cases hentered : entered = []
      · subst hentered
        have hshorter : (base.take (base.length - up) ++ []).dropLast =
            base.take (base.length - (up + 1)) ++ [] := by
          rw [append_nil, append_nil, dropLast_eq_take, take_take]
          apply congrArg (fun n => base.take n)
          rw [length_take]
          omega
        rw [if_pos rfl, hshorter]
        exact ih (up + 1, [])
      · rw [if_neg hentered, dropLast_append_of_ne_nil hentered]
        exact ih (up, entered.dropLast)
    · rw [if_neg hname, if_neg hname, append_assoc]
      exact ih (up, entered ++ [name])

theorem walk_eq_climb (base : Path) (names : List String) :
    walk base names = base.take (base.length - (climb names).1) ++ (climb names).2 := by
  have hstart := foldl_climbStep base names (0, [])
  rw [Nat.sub_zero, take_length, append_nil] at hstart
  exact hstart

/-- A walk that leaves the start enters again what it has left of it. -/
def ReEnters (base : Path) (names : List String) : Prop :=
  base.drop (base.length - (climb names).1) <+: (climb names).2

instance (base : Path) (names : List String) : Decidable (ReEnters base names) :=
  inferInstanceAs (Decidable (_ <+: _))

theorem prefix_walk_iff (base : Path) (names : List String) :
    base <+: walk base names ↔ ReEnters base names := by
  have hsplit : base.take (base.length - (climb names).1) ++
      base.drop (base.length - (climb names).1) = base := take_append_drop _ _
  rw [walk_eq_climb]
  conv_lhs => lhs; rw [← hsplit]
  exact prefix_append_right_inj _

theorem walk_append (base : Path) (first second : List String) :
    walk base (first ++ second) = walk (walk base first) second := foldl_append

/-- Without `..` a walk enters all of its names. -/
theorem walk_of_no_parent {names : List String} (h : ".." ∉ names) (base : Path) :
    walk base names = base ++ names := by
  induction names generalizing base with
  | nil => exact (append_nil base).symm
  | cons name names ih =>
    obtain ⟨hname, hrest⟩ := not_or.mp (mt mem_cons.mpr h)
    have hstep : walk base (name :: names) = walk (base ++ [name]) names :=
      congrArg (fun p => names.foldl _ p) (if_neg (Ne.symm hname))
    rw [hstep, ih hrest, append_assoc]
    rfl

theorem components_slash (before after : List Char) :
    components (String.ofList (before ++ '/' :: after)) =
      components (String.ofList before) ++ components (String.ofList after) := by
  have hsplit : (before ++ '/' :: after).splitOn '/' =
      before.splitOn '/' ++ after.splitOn '/' := by
    unfold List.splitOn
    exact splitOnP_append_cons _ _ (by decide)
  unfold components
  rw [String.toList_ofList, String.toList_ofList, String.toList_ofList, hsplit, map_append,
    filter_append]

theorem components_nil : components (String.ofList []) = [] := by decide

theorem components_end_slash (text : List Char) :
    components (String.ofList (text ++ ['/'])) = components (String.ofList text) := by
  rw [components_slash, components_nil, append_nil]

end Path

namespace Runtime

open DbClinic.Path

namespace PermissionEnforcer

/-- `trim_end_matches('/')`. -/
def trimEndSlashes (text : List Char) : List Char := (text.reverse.dropWhile (· = '/')).reverse

/-- The text that the check compares: a relative path is put behind the root. -/
def normalized (path workspaceRoot : List Char) : List Char :=
  if path.head? = some '/' then path else workspaceRoot ++ '/' :: path

def rootDirectory (workspaceRoot : List Char) : List Char :=
  if workspaceRoot.getLast? = some '/' then workspaceRoot else workspaceRoot ++ ['/']

def isWithinWorkspace (path workspaceRoot : List Char) : Bool :=
  (rootDirectory workspaceRoot).isPrefixOf (normalized path workspaceRoot) ||
    normalized path workspaceRoot = trimEndSlashes workspaceRoot

def checkFileWrite (enforcer : PermissionEnforcer) (path workspaceRoot : String) :
    EnforcementResult :=
  let mode := enforcer.policy.activeMode
  match mode with
  | .readOnly =>
    .denied "write_file" mode.asStr PermissionMode.workspaceWrite.asStr
      ("file writes are not allowed in '" ++ mode.asStr ++ "' mode")
  | .workspaceWrite =>
    if isWithinWorkspace path.toList workspaceRoot.toList then .allowed
    else
      .denied "write_file" mode.asStr PermissionMode.dangerFullAccess.asStr
        ("path '" ++ path ++ "' is outside workspace root '" ++ workspaceRoot ++ "'")
  | .allow => .allowed
  | .dangerFullAccess => .allowed
  | .prompt =>
    .denied "write_file" mode.asStr PermissionMode.workspaceWrite.asStr
      "file write requires confirmation in prompt mode"

/-- The directory or file that a text names, without a look at the tree. -/
def lexical (text : List Char) : Path := walk [] (components (String.ofList text))

/-- The path, taken relative to the root where it does not begin with a slash, is
the root or lies below it. -/
def LiesWithin (path workspaceRoot : String) : Prop :=
  components workspaceRoot <+: lexical (normalized path.toList workspaceRoot.toList)

instance (path workspaceRoot : String) : Decidable (LiesWithin path workspaceRoot) :=
  inferInstanceAs (Decidable (_ <+: _))

/-- What the path has behind the text of the root enters again what it leaves of
the root. -/
def StaysBelow (path workspaceRoot : String) : Prop :=
  ∀ rest, normalized path.toList workspaceRoot.toList =
      rootDirectory workspaceRoot.toList ++ rest →
    ReEnters (components workspaceRoot) (components (String.ofList rest))

theorem checkFileWrite_allowed_iff {enforcer : PermissionEnforcer} {path workspaceRoot : String}
    (hmode : enforcer.policy.activeMode = .workspaceWrite) :
    enforcer.checkFileWrite path workspaceRoot = .allowed ↔
      isWithinWorkspace path.toList workspaceRoot.toList = true := by
  unfold checkFileWrite
  rw [hmode]
  dsimp only
  split
  · rename_i hwithin
    exact iff_of_true rfl hwithin
  · rename_i houtside
    exact iff_of_false (fun h => by cases h) houtside

theorem exists_rootDirectory (workspaceRoot : List Char) :
    ∃ text, rootDirectory workspaceRoot = text ++ ['/'] ∧
      components (String.ofList text) = components (String.ofList workspaceRoot) := by
  unfold rootDirectory
  split
  · rename_i hslash
    obtain ⟨text, rfl⟩ := getLast?_eq_some_iff.mp hslash
    exact ⟨text, rfl, (components_end_slash text).symm⟩
  · exact ⟨workspaceRoot, rfl, rfl⟩

theorem components_rootDirectory (workspaceRoot rest : List Char) :
    components (String.ofList (rootDirectory workspaceRoot ++ rest)) =
      components (String.ofList workspaceRoot) ++ components (String.ofList rest) := by
  obtain ⟨text, htext, hnames⟩ := exists_rootDirectory workspaceRoot
  rw [htext, append_assoc, singleton_append, components_slash, hnames]

theorem components_trimEndSlashes (text : List Char) :
    components (String.ofList (trimEndSlashes text)) = components (String.ofList text) := by
  unfold trimEndSlashes
  induction text using List.reverseRecOn with
  | nil => rfl
  | append_singleton text c ih =>
    rw [reverse_append, reverse_singleton, singleton_append, dropWhile_cons]
    by_cases hc : c = '/'
    · subst hc
      rw [if_pos (decide_eq_true rfl), components_end_slash]
      exact ih
    · rw [if_neg (by simpa using hc), reverse_cons, reverse_reverse]

/-- For every path and every root without `..`: a write that the check allows in
the mode `workspace-write` lies within the root, if and only if what the path
has behind the text of the root enters again what it leaves. -/
theorem allowed_write_lies_within_iff (enforcer : PermissionEnforcer) (path workspaceRoot : String)
    (hmode : enforcer.policy.activeMode = .workspaceWrite)
    (hroot : ".." ∉ components workspaceRoot) :
    (enforcer.checkFileWrite path workspaceRoot = .allowed → LiesWithin path workspaceRoot) ↔
      StaysBelow path workspaceRoot := by
  have hofList : String.ofList workspaceRoot.toList = workspaceRoot := String.ofList_toList
  have hwalk : walk [] (components workspaceRoot) = components workspaceRoot :=
    walk_of_no_parent hroot []
  have hlexical : ∀ rest, lexical (rootDirectory workspaceRoot.toList ++ rest) =
      walk (components workspaceRoot) (components (String.ofList rest)) := by
    intro rest
    unfold lexical
    rw [components_rootDirectory, hofList, walk_append, hwalk]
  rw [checkFileWrite_allowed_iff hmode]
  unfold isWithinWorkspace
  rw [Bool.or_eq_true, decide_eq_true_eq, isPrefixOf_iff_prefix]
  constructor
  · intro hwithin rest hrest
    have hlies := hwithin (.inl ⟨rest, hrest.symm⟩)
    unfold LiesWithin at hlies
    rw [hrest, hlexical] at hlies
    exact (prefix_walk_iff _ _).mp hlies
  · intro hstays hallowed
    unfold LiesWithin
    rcases hallowed with ⟨rest, hrest⟩ | hsame
    · rw [← hrest, hlexical]
      exact (prefix_walk_iff _ _).mpr (hstays rest hrest.symm)
    · -- The path is the root itself.
      unfold lexical
      rw [hsame, components_trimEndSlashes, hofList, hwalk]

/-- A path without `..` stays below the root. -/
theorem allowed_write_lies_within_file :
    ((⟨.new .workspaceWrite⟩ : PermissionEnforcer).checkFileWrite "/workspace/src/main.rs"
        "/workspace" = .allowed → LiesWithin "/workspace/src/main.rs" "/workspace") ↔
      StaysBelow "/workspace/src/main.rs" "/workspace" :=
  allowed_write_lies_within_iff ⟨.new .workspaceWrite⟩ "/workspace/src/main.rs" "/workspace" rfl
    (by decide)

/-- The check allows a write to `/etc/passwd`, by a path that begins with the root. -/
theorem allowed_write_outside :
    (⟨.new .workspaceWrite⟩ : PermissionEnforcer).checkFileWrite "/workspace/../etc/passwd"
      "/workspace" = .allowed ∧ ¬ LiesWithin "/workspace/../etc/passwd" "/workspace" := by
  refine ⟨by decide +kernel, by decide +kernel⟩

end PermissionEnforcer

end Runtime

end DbClinic
