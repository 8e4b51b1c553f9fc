import Mathlib.Logic.Relation
import DbClinic.Cli.MarkdownStream
import DbClinic.Lib.FileTree
import DbClinic.Runtime.PathBuf
import DbClinic.Tools.PlanMode

/-!
Edits of notebooks. A call reads the file, edits one of the cells, and writes it back.
The id of an inserted cell counts the cells, so after a deletion it may be taken; and
a cell that is neither an object nor null has no key to assign.
-/

namespace DbClinic.Tools

open List
open DbClinic.Cli (splitInclusive splitInclusive_flatten)
open DbClinic.Serde
open DbClinic.Runtime (PathBuf getEntry getEntry_insertEntry insertEntry)

inductive NotebookCellType where
  | code
  | markdown
  deriving DecidableEq

inductive NotebookEditMode where
  | replace
  | insert
  | delete
  deriving DecidableEq

structure NotebookEditInput where
  notebookPath : String
  cellId : Option String
  newSource : Option String
  cellType : Option NotebookCellType
  editMode : Option NotebookEditMode

structure NotebookEditOutput where
  newSource : String
  cellId : Option String
  cellType : Option NotebookCellType
  language : String
  editMode : String
  error : Option String
  notebookPath : String
  originalFile : List Char
  updatedFile : List Char

def formatNotebookEditMode : NotebookEditMode → String
  | .replace => "replace"
  | .insert => "insert"
  | .delete => "delete"

def NotebookCellType.name : NotebookCellType → String
  | .code => "code"
  | .markdown => "markdown"

/-- `get("id").and_then(as_str)`. -/
def idOf (cell : Value) : Option String := (cell.get "id").bind Value.asStr

def resolveCellIndex (cells : List Value) (cellId : Option String) (mode : NotebookEditMode) :
    Except String Nat :=
  if cells = [] ∧ mode ≠ .insert then .error "Notebook has no cells to edit"
  else
    match cellId with
    | some id =>
      match cells.findIdx? fun cell => idOf cell = some id with
      | some i => .ok i
      | none => .error ("Cell id not found: " ++ id)
    | none => .ok (cells.length - 1)

def sourceLines (source : String) : List Value :=
  if source = "" then [.string ""]
  else (splitInclusive source.toList).map fun line => .string (String.ofList line)

def makeCellId (index : Nat) : String := s!"cell-{index + 1}"

def cellKind (cell : Value) : Option NotebookCellType :=
  ((cell.get "cell_type").bind Value.asStr).map fun kind =>
    if kind = "markdown" then .markdown else .code

def requireNotebookSource (source : Option String) (mode : NotebookEditMode) :
    Except String String :=
  match mode, source with
  | .delete, source => .ok (source.getD "")
  | _, some source => .ok source
  | _, none => .error "new_source is required for insert and replace edits"

def buildNotebookCell (cellId : String) (cellType : NotebookCellType) (source : String) : Value :=
  let cell := [("cell_type", .string cellType.name), ("id", .string cellId),
    ("metadata", .object []), ("source", .array (sourceLines source))]
  match cellType with
  | .code =>
    .object (insertEntry "execution_count" .null (insertEntry "outputs" (.array []) cell))
  | .markdown => .object cell

/-- `cell[key] = value`, which panics unless the cell is an object or null. -/
def assign (key : String) (value : Value) : Value → Option Value
  | .object entries => some (.object (insertEntry key value entries))
  | .null => some (.object [(key, value)])
  | _ => none

def isArray : Value → Bool
  | .array _ => true
  | _ => false

def assignUnless (present : Bool) (key : String) (value cell : Value) : Option Value :=
  if present then some cell else assign key value cell

def replaceCell (cellType : NotebookCellType) (source : String) (cell : Value) : Option Value := do
  let cell ← assign "source" (.array (sourceLines source)) cell
  let cell ← assign "cell_type" (.string cellType.name) cell
  match cellType with
  | .code => do
    let cell ← assignUnless ((cell.get "outputs").any isArray) "outputs" (.array []) cell
    assignUnless (cell.get "execution_count").isSome "execution_count" .null cell
  | .markdown =>
    match cell with
    | .object entries =>
      some (.object (removeEntry "execution_count" (removeEntry "outputs" entries)))
    | other => some other

/-- The cells after a call, and what it reports of the cell. -/
structure CellEdit where
  cells : List Value
  newSource : String
  cellId : Option String
  cellType : Option NotebookCellType

/-- The part of the call that edits the cells; none if it panics. -/
def editCells (cells : List Value) (input : NotebookEditInput) :
    Option (Except String CellEdit) :=
  let mode := input.editMode.getD .replace
  let target := if input.cellId.isSome ∨ mode ≠ .insert then
      (resolveCellIndex cells input.cellId mode).map some
    else .ok none
  match target with
  | .error message => some (.error message)
  | .ok target =>
    let cell := target.bind fun i => cells[i]?
    match requireNotebookSource input.newSource mode with
    | .error message => some (.error message)
    | .ok source =>
      match mode with
      | .insert =>
        let cellType := input.cellType.getD .code
        let newCell := buildNotebookCell (makeCellId cells.length) cellType source
        let insertAt := target.elim cells.length (· + 1)
        some (.ok ⟨cells.insertIdx insertAt newCell, source, idOf newCell, some cellType⟩)
      | .delete =>
        match target with
        | none => some (.error "delete mode requires a target cell index")
        | some i => cell.map fun removed =>
          .ok ⟨cells.eraseIdx i, source, idOf removed, none⟩
      | .replace =>
        let cellType := input.cellType.getD ((cell.bind cellKind).getD .code)
        match target, cell with
        | none, _ => some (.error "replace mode requires a target cell index")
        | some _, none => some (.error "Cell index out of range")
        | some i, some cell => (replaceCell cellType source cell).map fun edited =>
          .ok ⟨cells.set i edited, source, idOf edited, some cellType⟩

def languageOf (notebook : Value) : String :=
  ((((notebook.get "metadata").bind (Value.get · "kernelspec")).bind
    (Value.get · "language")).bind Value.asStr).getD "python"

def cellsOf (notebook : Value) : Option (List Value) :=
  match notebook.get "cells" with
  | some (.array cells) => some cells
  | _ => none

def withCells (cells : List Value) : Value → Value
  | .object entries => .object (insertEntry "cells" (.array cells) entries)
  | other => other

def isNotebookPath (path : String) : Bool :=
  (PathBuf.ofText path).fileName.bind Path.extension = some "ipynb"

section Calls

variable (json : SerdeText)

def writeNotebook (written : Except String Unit) (input : NotebookEditInput)
    (originalFile : List Char) (notebook : Value) (result : Except String CellEdit) :
    Except String NotebookEditOutput := do
  let edit ← result
  let updatedFile := json.toStringPretty (withCells edit.cells notebook)
  written
  return ⟨edit.newSource, edit.cellId, edit.cellType, languageOf notebook,
    formatNotebookEditMode (input.editMode.getD .replace), none, input.notebookPath,
    originalFile, updatedFile⟩

/-- A call, on what reading and writing the file give; none if it panics. -/
def executeNotebookEdit (file : Except String (List Char)) (written : Except String Unit)
    (input : NotebookEditInput) : Option (Except String NotebookEditOutput) :=
  if isNotebookPath input.notebookPath = false then
    some (.error "File must be a Jupyter notebook (.ipynb file).")
  else
    match file with
    | .error message => some (.error message)
    | .ok originalFile =>
      match json.fromStr originalFile with
      | .error message => some (.error message)
      | .ok notebook =>
        match cellsOf notebook with
        | none => some (.error "Notebook cells array not found")
        | some cells =>
          (editCells cells input).map (writeNotebook json written input originalFile notebook)

end Calls

def sourceOf (cell : Value) : Option String :=
  match cell.get "source" with
  | some (.array lines) =>
    some (String.ofList (lines.flatMap fun line => (line.asStr.getD "").toList))
  | _ => none

/-- The cell with the id of the call, or the last cell. -/
def IsTarget (cells : List Value) (cellId : Option String) (i : Nat) : Prop :=
  match cellId with
  | some id => (cells[i]?).bind idOf = some id
  | none => i + 1 = cells.length

/-- One cell is inserted behind the target or at the end, replaced, or deleted, and the
id is that cell's. -/
def CellsEdited (cells : List Value) (input : NotebookEditInput) (after : List Value)
    (cellId : Option String) : Prop :=
  match input.editMode.getD .replace with
  | .insert => ∃ i entries, i ≤ cells.length ∧ after = cells.insertIdx i (.object entries) ∧
      (input.cellId = none → i = cells.length) ∧
      (input.cellId ≠ none → ∃ target, i = target + 1 ∧ IsTarget cells input.cellId target) ∧
      idOf (.object entries) = cellId ∧ cellId = some (makeCellId cells.length) ∧
      sourceOf (.object entries) = input.newSource
  | .replace => ∃ i old entries, cells[i]? = some old ∧ IsTarget cells input.cellId i ∧
      after = cells.set i (.object entries) ∧ idOf old = cellId ∧
      idOf (.object entries) = cellId ∧ sourceOf (.object entries) = input.newSource
  | .delete => ∃ i old, cells[i]? = some old ∧ IsTarget cells input.cellId i ∧
      after = cells.eraseIdx i ∧ idOf old = cellId

section Cells

variable {cells : List Value} {input : NotebookEditInput} {cell edited : Value}
  {cellType : NotebookCellType} {source key : String} {value : Value} {i : Nat}

/-- What the library prints, up to a depth. -/
structure Fits (n : Nat) (value : Value) : Prop where
  proper : value.Proper
  depth : value.depth ≤ n

theorem fits_array_iff {n : Nat} {values : List Value} :
    Fits (n + 1) (.array values) ↔ ∀ value ∈ values, Fits n value := by
  have hproper : (Value.array values).Proper ↔ ∀ value ∈ values, value.Proper := by
    induction values with
    | nil => exact iff_of_true trivial (forall_mem_nil _)
    | cons value values ih =>
      rw [forall_mem_cons, ← ih]
      exact Iff.rfl
  have hdepth : (Value.array values).depth ≤ n + 1 ↔ ∀ value ∈ values, value.depth ≤ n := by
    clear hproper
    induction values with
    | nil => simp [Value.depth, depthValues]
    | cons value values ih =>
      rw [forall_mem_cons, ← ih]
      simp [Value.depth, depthValues]
  refine ⟨fun h value hval => ⟨hproper.mp h.proper value hval, hdepth.mp h.depth value hval⟩,
    fun h => ⟨hproper.mpr fun value hval => (h value hval).proper,
      hdepth.mpr fun value hval => (h value hval).depth⟩⟩

theorem Fits.insert {n : Nat} {entries : List (String × Value)}
    (h : Fits (n + 1) (.object entries)) (hval : Fits n value) :
    Fits (n + 1) (.object (insertEntry key value entries)) :=
  ⟨proper_insertEntry hval.proper h.proper,
    depth_insertEntry (Nat.lt_succ_of_le hval.depth) h.depth⟩

theorem fits_string (n : Nat) (text : String) : Fits n (.string text) := ⟨trivial, Nat.zero_le n⟩

theorem fits_null (n : Nat) : Fits n .null := ⟨trivial, Nat.zero_le n⟩

theorem fits_sourceLines (n : Nat) (source : String) :
    Fits (n + 1) (.array (sourceLines source)) := by
  refine fits_array_iff.mpr fun value hval => ?_
  unfold sourceLines at hval
  split at hval
  · rw [mem_singleton.mp hval]
    exact fits_string n ""
  · obtain ⟨line, -, rfl⟩ := mem_map.mp hval
    exact fits_string n _

theorem flatMap_sourceLines (source : String) :
    (sourceLines source).flatMap (fun line => (line.asStr.getD "").toList) = source.toList := by
  unfold sourceLines
  split
  · rename_i hempty
    subst hempty
    rfl
  · rw [flatMap_map]
    conv_rhs => rw [← splitInclusive_flatten source.toList]
    simp [Value.asStr, flatMap_id']

/-- The entries of a cell with this source, the same id, and no greater depth. -/
structure Written (old : Value) (source : String) (entries : List (String × Value)) : Prop where
  id : idOf (.object entries) = idOf old
  source : getEntry entries "source" = some (.array (sourceLines source))
  fits : Fits 125 old → Fits 125 (.object entries)

theorem Written.sourceOf_eq {entries : List (String × Value)} (h : Written cell source entries) :
    sourceOf (.object entries) = some source := by
  have hget : (Value.object entries).get "source" = some (.array (sourceLines source)) := h.source
  unfold sourceOf
  rw [hget]
  simp [flatMap_sourceLines]

theorem Written.insert {entries : List (String × Value)} (h : Written cell source entries)
    (key : String) (hkey : "id" ≠ key ∧ "source" ≠ key) (hval : Fits 124 value) :
    Written cell source (insertEntry key value entries) where
  id := by
    rw [← h.id]
    exact congrArg (·.bind Value.asStr) ((getEntry_insertEntry _ _ _ _).trans (if_neg hkey.1.symm))
  source := ((getEntry_insertEntry _ _ _ _).trans (if_neg hkey.2.symm)).trans h.source
  fits hold := (h.fits hold).insert hval

theorem Written.remove {entries : List (String × Value)} (h : Written cell source entries)
    (key : String) (hkey : "id" ≠ key ∧ "source" ≠ key) :
    Written cell source (removeEntry key entries) where
  id := by
    rw [← h.id]
    exact congrArg (·.bind Value.asStr) ((getEntry_removeEntry _ _ _).trans (if_neg hkey.1.symm))
  source := ((getEntry_removeEntry _ _ _).trans (if_neg hkey.2.symm)).trans h.source
  fits hold := ⟨proper_filter (h.fits hold).proper, depth_filter (h.fits hold).depth⟩

def Assignable (cell : Value) : Prop := cell = .null ∨ ∃ entries, cell = .object entries

theorem assign_source (h : Assignable cell) : ∃ entries,
    assign "source" (.array (sourceLines source)) cell = some (.object entries) ∧
      Written cell source entries := by
  have hlines : Fits 124 (.array (sourceLines source)) := fits_sourceLines 123 source
  rcases h with rfl | ⟨entries, rfl⟩
  · have hnil : Fits 125 (.object []) := ⟨proper_nil, by decide⟩
    exact ⟨_, rfl, rfl, rfl, fun _ => hnil.insert hlines⟩
  · refine ⟨_, rfl, ?_, (getEntry_insertEntry _ _ _ _).trans (if_pos rfl), (·.insert hlines)⟩
    have hid : "source" ≠ "id" := by decide
    exact congrArg (·.bind Value.asStr) ((getEntry_insertEntry _ _ _ _).trans (if_neg hid))

theorem Written.assignUnless {entries : List (String × Value)} (h : Written cell source entries)
    (key : String) (hkey : "id" ≠ key ∧ "source" ≠ key) (hval : Fits 124 value) (present : Bool) :
    ∃ more, assignUnless present key value (.object entries) = some (.object more) ∧
      Written cell source more := by
  unfold Tools.assignUnless
  split
  · exact ⟨entries, rfl, h⟩
  · exact ⟨_, rfl, h.insert key hkey hval⟩

theorem replaceCell_spec (h : Assignable cell) : ∃ entries,
    replaceCell cellType source cell = some (.object entries) ∧ Written cell source entries := by
  obtain ⟨first, hfirst, hwritten⟩ := @assign_source cell source h
  have htype := hwritten.insert "cell_type" (by decide) (fits_string 124 cellType.name)
  have hobject : ∀ key value entries, assign key value (.object entries) =
      some (.object (insertEntry key value entries)) := fun _ _ _ => rfl
  unfold replaceCell
  simp only [Option.bind_eq_bind, hfirst, Option.bind_some, hobject]
  cases cellType with
  | markdown =>
    exact ⟨_, rfl, (htype.remove "outputs" (by decide)).remove "execution_count" (by decide)⟩
  | code =>
    generalize insertEntry "cell_type" _ first = entries at htype
    obtain ⟨second, hsecond, hwritten⟩ := htype.assignUnless "outputs" (by decide)
      (fits_array_iff.mpr (forall_mem_nil _))
      (((Value.object entries).get "outputs").any isArray)
    obtain ⟨third, hthird, hwritten⟩ := hwritten.assignUnless "execution_count" (by decide)
      (fits_null 124) ((Value.object second).get "execution_count").isSome
    refine ⟨third, ?_, hwritten⟩
    simp only [hsecond, Option.bind_some]
    exact hthird

theorem replaceCell_eq_none (h : ¬Assignable cell) : replaceCell cellType source cell = none := by
  cases cell with
  | null => exact absurd (.inl rfl) h
  | object entries => exact absurd (.inr ⟨entries, rfl⟩) h
  | _ => rfl

theorem buildNotebookCell_spec (id : String) (cellType : NotebookCellType) (source : String) :
    ∃ entries, buildNotebookCell id cellType source = .object entries ∧
      idOf (.object entries) = some id ∧ sourceOf (.object entries) = some source ∧
      Fits 125 (.object entries) := by
  have hempty : Fits 124 (.object []) := ⟨proper_nil, by decide⟩
  have hid : Fits 125 (.object [("id", .string id)]) :=
    @Fits.insert "id" _ 124 [] ⟨proper_nil, by decide⟩ (fits_string 124 id)
  have hfits : Fits 125 (.object [("cell_type", .string cellType.name), ("id", .string id),
      ("metadata", .object []), ("source", .array (sourceLines source))]) := by
    have hsource := @Fits.insert "source" _ 124 [] ⟨proper_nil, by decide⟩
      (fits_sourceLines 123 source)
    have hmeta := @Fits.insert "metadata" _ 124 _ hsource hempty
    have hall := @Fits.insert "id" _ 124 _ hmeta (fits_string 124 id)
    exact @Fits.insert "cell_type" _ 124 _ hall (fits_string 124 cellType.name)
  have hbase : Written (.object [("id", .string id)]) source [("cell_type", .string cellType.name),
      ("id", .string id), ("metadata", .object []), ("source", .array (sourceLines source))] :=
    ⟨rfl, rfl, fun _ => hfits⟩
  cases cellType with
  | markdown => exact ⟨_, rfl, hbase.id, hbase.sourceOf_eq, hbase.fits hid⟩
  | code =>
    have hcode := (hbase.insert "outputs" (by decide) (fits_array_iff.mpr
      (forall_mem_nil _))).insert "execution_count" (by decide) (fits_null 124)
    exact ⟨_, rfl, hcode.id, hcode.sourceOf_eq, hcode.fits hid⟩

theorem isTarget_of_resolveCellIndex {mode : NotebookEditMode} {cellId : Option String}
    (hcalled : cellId.isSome = true ∨ mode ≠ .insert)
    (h : resolveCellIndex cells cellId mode = .ok i) :
    ∃ cell, cells[i]? = some cell ∧ IsTarget cells cellId i := by
  unfold resolveCellIndex at h
  split at h
  · cases h
  · rename_i hcells
    cases cellId with
    | some id =>
      simp only at h
      cases hfind : cells.findIdx? fun cell => idOf cell = some id with
      | none =>
        rw [hfind] at h
        cases h
      | some j =>
        rw [hfind] at h
        cases h
        obtain ⟨hlt, hid, -⟩ := findIdx?_eq_some_iff_getElem.mp hfind
        refine ⟨_, getElem?_eq_getElem hlt, ?_⟩
        unfold IsTarget
        rw [getElem?_eq_getElem hlt]
        simpa using hid
    | none =>
      cases h
      have hne : cells ≠ [] := fun hnil => hcells ⟨hnil, hcalled.resolve_left (by simp)⟩
      have hpos := length_pos_iff.mpr hne
      have hlt : cells.length - 1 < cells.length := Nat.sub_lt hpos Nat.one_pos
      exact ⟨_, getElem?_eq_getElem hlt, Nat.sub_add_cancel hpos⟩

theorem editCells_replace (cells : List Value) (hmode : input.editMode.getD .replace = .replace) :
    (∃ message, editCells cells input = some (.error message) ∧
      ¬∃ i, input.newSource.isSome = true ∧
        resolveCellIndex cells input.cellId .replace = .ok i) ∨
    ∃ i old source cellType, cells[i]? = some old ∧ IsTarget cells input.cellId i ∧
      resolveCellIndex cells input.cellId .replace = .ok i ∧ input.newSource = some source ∧
      editCells cells input = (replaceCell cellType source old).map fun edited =>
        .ok ⟨cells.set i edited, source, idOf edited, some cellType⟩ := by
  unfold editCells
  simp only [hmode]
  rw [if_pos (Or.inr (by decide))]
  cases hresolve : resolveCellIndex cells input.cellId .replace with
  | error message => exact .inl ⟨message, rfl, by simp⟩
  | ok i =>
    obtain ⟨old, hold, htarget⟩ := isTarget_of_resolveCellIndex (.inr (by decide)) hresolve
    cases hsource : input.newSource with
    | none => exact .inl ⟨_, rfl, by simp⟩
    | some source =>
      refine .inr ⟨i, old, source, input.cellType.getD ((cellKind old).getD .code), hold,
        htarget, rfl, rfl, ?_⟩
      simp only [Except.map, requireNotebookSource, Option.bind_some, hold]

theorem editCells_delete (cells : List Value) (hmode : input.editMode.getD .replace = .delete) :
    (∃ message, editCells cells input = some (.error message)) ∨
    ∃ i old, cells[i]? = some old ∧ IsTarget cells input.cellId i ∧
      editCells cells input =
        some (.ok ⟨cells.eraseIdx i, input.newSource.getD "", idOf old, none⟩) := by
  unfold editCells
  simp only [hmode]
  rw [if_pos (Or.inr (by decide))]
  cases hresolve : resolveCellIndex cells input.cellId .delete with
  | error message => exact .inl ⟨message, rfl⟩
  | ok i =>
    obtain ⟨old, hold, htarget⟩ := isTarget_of_resolveCellIndex (.inr (by decide)) hresolve
    refine .inr ⟨i, old, hold, htarget, ?_⟩
    simp only [Except.map, requireNotebookSource, Option.bind_some, hold, Option.map_some]

theorem editCells_insert (cells : List Value) (hmode : input.editMode.getD .replace = .insert) :
    (∃ message, editCells cells input = some (.error message)) ∨
    ∃ i source cellType, i ≤ cells.length ∧ (input.cellId = none → i = cells.length) ∧
      (input.cellId ≠ none → ∃ target, i = target + 1 ∧ IsTarget cells input.cellId target) ∧
      input.newSource = some source ∧
      editCells cells input = some (.ok ⟨cells.insertIdx i (buildNotebookCell
        (makeCellId cells.length) cellType source), source,
        idOf (buildNotebookCell (makeCellId cells.length) cellType source), some cellType⟩) := by
  unfold editCells
  simp only [hmode]
  cases hid : input.cellId with
  | none =>
    rw [if_neg (by simp)]
    cases hsource : input.newSource with
    | none => exact .inl ⟨_, rfl⟩
    | some source =>
      exact .inr ⟨cells.length, source, input.cellType.getD .code, Nat.le_refl _, fun _ => rfl,
        fun h => absurd rfl h, rfl, rfl⟩
  | some id =>
    have hcalled : (some id).isSome = true ∨ NotebookEditMode.insert ≠ .insert := .inl rfl
    rw [if_pos hcalled]
    cases hresolve : resolveCellIndex cells (some id) .insert with
    | error message => exact .inl ⟨message, rfl⟩
    | ok i =>
      obtain ⟨old, hold, htarget⟩ := isTarget_of_resolveCellIndex (.inl rfl) hresolve
      have hlt : i < cells.length := (List.getElem?_eq_some_iff.mp hold).1
      cases hsource : input.newSource with
      | none => exact .inl ⟨_, rfl⟩
      | some source =>
        exact .inr ⟨i + 1, source, input.cellType.getD .code, hlt, nofun,
          fun _ => ⟨i, rfl, htarget⟩, rfl, rfl⟩

theorem editCells_eq_none_iff : editCells cells input = none ↔
    input.editMode.getD .replace = .replace ∧ input.newSource.isSome = true ∧
      ∃ i cell, resolveCellIndex cells input.cellId .replace = .ok i ∧ cells[i]? = some cell ∧
        ¬Assignable cell := by
  cases hmode : input.editMode.getD .replace with
  | insert =>
    rcases editCells_insert cells hmode with ⟨message, h⟩ | ⟨_, _, _, _, _, _, _, h⟩ <;> simp [h]
  | delete =>
    rcases editCells_delete cells hmode with ⟨message, h⟩ | ⟨_, _, _, _, h⟩ <;> simp [h]
  | replace =>
    rcases editCells_replace cells hmode with
      ⟨message, h, hnot⟩ | ⟨i, old, source, cellType, hold, -, hresolve, hsource, h⟩
    · rw [h]
      refine iff_of_false (by simp) ?_
      rintro ⟨-, hsource, i, -, hresolve, -⟩
      exact hnot ⟨i, hsource, hresolve⟩
    · rw [h, Option.map_eq_none_iff]
      have hreplaced : replaceCell cellType source old = none ↔ ¬Assignable old := by
        constructor
        · intro hnone hassignable
          obtain ⟨entries, hsome, -⟩ := @replaceCell_spec old cellType source hassignable
          rw [hnone] at hsome
          cases hsome
        · exact replaceCell_eq_none
      simp [hreplaced, hresolve, hsource, hold]

theorem editCells_ok {edit : CellEdit} (h : editCells cells input = some (.ok edit)) :
    CellsEdited cells input edit.cells edit.cellId ∧
      ((∀ cell ∈ cells, Fits 125 cell) → ∀ cell ∈ edit.cells, Fits 125 cell) := by
  unfold CellsEdited
  cases hmode : input.editMode.getD .replace with
  | insert =>
    rcases editCells_insert cells hmode with
      ⟨message, heq⟩ | ⟨i, source, cellType, hi, hnone, hsome, hsource, heq⟩
    · rw [heq] at h
      cases h
    · rw [heq] at h
      cases h
      obtain ⟨entries, hcell, hid, htext, hfits⟩ :=
        buildNotebookCell_spec (makeCellId cells.length) cellType source
      rw [hcell]
      refine ⟨⟨i, entries, hi, rfl, hnone, hsome, rfl, hid, htext.trans hsource.symm⟩, ?_⟩
      intro hall cell hmem
      rcases mem_cons.mp (insertIdx_subset_cons i _ _ hmem) with rfl | hmem
      · exact hfits
      · exact hall cell hmem
  | delete =>
    rcases editCells_delete cells hmode with ⟨message, heq⟩ | ⟨i, old, hold, htarget, heq⟩
    · rw [heq] at h
      cases h
    · rw [heq] at h
      cases h
      exact ⟨⟨i, old, hold, htarget, rfl, rfl⟩, fun hall cell hmem =>
        hall cell (mem_of_mem_eraseIdx hmem)⟩
  | replace =>
    rcases editCells_replace cells hmode with ⟨message, heq, -⟩ | ⟨i, old, source, cellType, hold,
      htarget, -, hsource, heq⟩
    · rw [heq] at h
      cases h
    · by_cases hassignable : Assignable old
      · obtain ⟨entries, hreplaced, hwritten⟩ :=
          @replaceCell_spec old cellType source hassignable
        rw [heq, hreplaced] at h
        cases h
        refine ⟨⟨i, old, entries, hold, htarget, rfl, hwritten.id.symm, rfl,
          hwritten.sourceOf_eq.trans hsource.symm⟩, ?_⟩
        intro hall cell hmem
        rcases mem_or_eq_of_mem_set hmem with hmem | rfl
        · exact hall cell hmem
        · exact hwritten.fits (hall old (mem_of_getElem? hold))
      · rw [heq, replaceCell_eq_none hassignable] at h
        cases h

end Cells

section Runs

variable {json : SerdeText} {input : NotebookEditInput} {output : NotebookEditOutput}
  {text : List Char} {notebook : Value} {cells after : List Value}

def Reads (json : SerdeText) (text : List Char) (notebook : Value) (cells : List Value) : Prop :=
  json.fromStr text = .ok notebook ∧ cellsOf notebook = some cells

/-- Where the call gets to replace a cell, that cell can be assigned. -/
def Assigns (json : SerdeText) (file : Except String (List Char)) (input : NotebookEditInput) :
    Prop :=
  ∀ text notebook cells i cell, isNotebookPath input.notebookPath = true → file = .ok text →
    Reads json text notebook cells → input.editMode.getD .replace = .replace →
    input.newSource.isSome = true → resolveCellIndex cells input.cellId .replace = .ok i →
    cells[i]? = some cell → Assignable cell

theorem executeNotebookEdit_cases (json : SerdeText) (file : Except String (List Char))
    (written : Except String Unit) (input : NotebookEditInput) :
    ((∃ message, executeNotebookEdit json file written input = some (.error message)) ∧
      ∀ text notebook cells, isNotebookPath input.notebookPath = true → file = .ok text →
        ¬Reads json text notebook cells) ∨
    ∃ text notebook cells, isNotebookPath input.notebookPath = true ∧ file = .ok text ∧
      Reads json text notebook cells ∧ executeNotebookEdit json file written input =
        (editCells cells input).map (writeNotebook json written input text notebook) := by
  unfold executeNotebookEdit
  cases hpath : isNotebookPath input.notebookPath with
  | false => exact .inl ⟨⟨_, rfl⟩, nofun⟩
  | true =>
    cases file with
    | error message => exact .inl ⟨⟨message, rfl⟩, nofun⟩
    | ok text =>
      cases hread : json.fromStr text with
      | error message =>
        refine .inl ⟨⟨message, by simp [hread]⟩, ?_⟩
        rintro _ notebook cells - ⟨⟩ ⟨hother, -⟩
        cases hread.symm.trans hother
      | ok notebook =>
        cases hcells : cellsOf notebook with
        | none =>
          refine .inl ⟨⟨_, by simp [hread, hcells]; rfl⟩, ?_⟩
          rintro _ other cells - ⟨⟩ ⟨hother, hsome⟩
          obtain rfl := Except.ok.inj (hread.symm.trans hother)
          cases hcells.symm.trans hsome
        | some cells =>
          exact .inr ⟨text, notebook, cells, rfl, rfl, ⟨hread, hcells⟩,
            by simp [hread, hcells]⟩

theorem Reads.eq {other : Value} {others : List Value} (h : Reads json text notebook cells)
    (hother : Reads json text other others) : other = notebook ∧ others = cells := by
  obtain ⟨hread, hsome⟩ := h
  obtain ⟨hread', hsome'⟩ := hother
  obtain rfl := Except.ok.inj (hread'.symm.trans hread)
  exact ⟨rfl, Option.some.inj (hsome'.symm.trans hsome)⟩

theorem executeNotebookEdit_ne_none_iff (json : SerdeText) (file : Except String (List Char))
    (written : Except String Unit) (input : NotebookEditInput) :
    executeNotebookEdit json file written input ≠ none ↔ Assigns json file input := by
  rcases executeNotebookEdit_cases json file written input with
    ⟨⟨message, h⟩, hnot⟩ | ⟨text, notebook, cells, hpath, rfl, hreads, h⟩
  · rw [h]
    refine iff_of_true (by simp) ?_
    intro text notebook cells i cell hpath hfile hreads
    exact absurd hreads (hnot text notebook cells hpath hfile)
  · rw [h, ne_eq, Option.map_eq_none_iff, editCells_eq_none_iff]
    constructor
    · rintro hnot text' notebook' cells' i cell - ⟨⟩ hreads' hmode hsource hresolve hcell
      obtain ⟨rfl, rfl⟩ := hreads.eq hreads'
      by_contra hfixed
      exact hnot ⟨hmode, hsource, i, cell, hresolve, hcell, hfixed⟩
    · rintro hassigns ⟨hmode, hsource, i, cell, hresolve, hcell, hfixed⟩
      exact hfixed (hassigns _ _ _ i cell hpath rfl hreads hmode hsource hresolve hcell)

theorem executeNotebookEdit_ok
    (h : executeNotebookEdit json (.ok text) (.ok ()) input = some (.ok output)) :
    ∃ notebook cells edit, Reads json text notebook cells ∧
      editCells cells input = some (.ok edit) ∧ output.cellId = edit.cellId ∧
      output.updatedFile = json.toStringPretty (withCells edit.cells notebook) := by
  rcases executeNotebookEdit_cases json (.ok text) (.ok ()) input with
    ⟨⟨message, herror⟩, -⟩ | ⟨_, notebook, cells, -, ⟨⟩, hreads, heq⟩
  · rw [herror] at h
    cases h
  · rw [heq] at h
    obtain ⟨result, hres, hout⟩ := Option.map_eq_some_iff.mp h
    cases result with
    | error message => cases hout
    | ok edit =>
      cases hout
      exact ⟨notebook, cells, edit, hreads, hres, rfl, rfl⟩

/-- The cells are objects with ids of their own. -/
def Usable (cells : List Value) : Prop :=
  (∀ cell ∈ cells, (∃ entries, cell = .object entries) ∧ (idOf cell).isSome = true) ∧
    (cells.map idOf).Nodup

theorem usable_of_cellsEdited {cellId : Option String} (h : CellsEdited cells input after cellId)
    (hcells : Usable cells) (hfresh : input.editMode.getD .replace = .insert →
      some (makeCellId cells.length) ∉ cells.map idOf) : Usable after := by
  obtain ⟨hall, hnodup⟩ := hcells
  unfold CellsEdited at h
  cases hmode : input.editMode.getD .replace with
  | insert =>
    rw [hmode] at h
    obtain ⟨i, entries, hi, rfl, -, -, hid, hnew, -⟩ := h
    have hperm := perm_insertIdx (.object entries) cells hi
    refine ⟨fun cell hcell => ?_, ?_⟩
    · rcases mem_cons.mp (hperm.mem_iff.mp hcell) with rfl | hcell
      · exact ⟨⟨entries, rfl⟩, by rw [hid, hnew]; rfl⟩
      · exact hall cell hcell
    · rw [(hperm.map idOf).nodup_iff, map_cons, nodup_cons, hid, hnew]
      exact ⟨hfresh hmode, hnodup⟩
  | delete =>
    rw [hmode] at h
    obtain ⟨i, old, -, -, rfl, -⟩ := h
    have hsub := eraseIdx_sublist cells i
    exact ⟨fun cell hcell => hall cell (hsub.mem hcell), (hsub.map idOf).nodup hnodup⟩
  | replace =>
    rw [hmode] at h
    obtain ⟨i, old, entries, hold, -, rfl, hid, hsame, -⟩ := h
    refine ⟨fun cell hcell => ?_, ?_⟩
    · rcases mem_or_eq_of_mem_set hcell with hcell | rfl
      · exact hall cell hcell
      · refine ⟨⟨entries, rfl⟩, ?_⟩
        rw [hsame, ← hid]
        exact (hall old (mem_of_getElem? hold)).2
    · have hids : (cells.set i (.object entries)).map idOf = cells.map idOf := by
        obtain ⟨hlt, rfl⟩ := List.getElem?_eq_some_iff.mp hold
        rw [map_set, hsame, ← hid, ← @List.getElem_map _ _ idOf _ _ (by simpa using hlt)]
        exact set_getElem_self _
      rw [hids]
      exact hnodup

theorem usable_mapFloats (f : String → String) (h : Usable cells) :
    Usable (mapFloatsValues f cells) := by
  have hmap : mapFloatsValues f cells = cells.map (Value.mapFloats f) := by
    clear h
    induction cells with
    | nil => rfl
    | cons cell cells ih => exact congrArg (cell.mapFloats f :: ·) ih
  have hid : ∀ cell ∈ cells, (∃ entries, cell.mapFloats f = .object entries) ∧
      idOf (cell.mapFloats f) = idOf cell := by
    intro cell hcell
    obtain ⟨⟨entries, rfl⟩, -⟩ := h.1 cell hcell
    refine ⟨⟨_, rfl⟩, ?_⟩
    have hget := getEntry_mapFloatsEntries f entries "id"
    have hleft : idOf (Value.mapFloats f (.object entries)) =
        (getEntry (mapFloatsEntries f entries) "id").bind Value.asStr := rfl
    rw [hleft, hget]
    change _ = (getEntry entries "id").bind Value.asStr
    cases getEntry entries "id" with
    | none => rfl
    | some value =>
      cases value with
      | number number => cases number <;> rfl
      | _ => rfl
  rw [hmap]
  refine ⟨fun cell hcell => ?_, ?_⟩
  · obtain ⟨old, hold, rfl⟩ := mem_map.mp hcell
    rw [(hid old hold).2]
    exact ⟨(hid old hold).1, (h.1 old hold).2⟩
  · have hids : (cells.map (Value.mapFloats f)).map idOf = cells.map idOf := by
      rw [map_map]
      exact map_congr_left fun cell hcell => (hid cell hcell).2
    rw [hids]
    exact h.2

/-- A call that succeeds, and inserts no id that is taken. -/
def FreshEdit (json : SerdeText) (text next : List Char) : Prop :=
  ∃ input output, executeNotebookEdit json (.ok text) (.ok ()) input = some (.ok output) ∧
    next = output.updatedFile ∧
    (input.editMode.getD .replace = .insert → ∀ notebook cells, Reads json text notebook cells →
      some (makeCellId cells.length) ∉ cells.map idOf)

def UsableFile (json : SerdeText) (text : List Char) : Prop :=
  ∃ notebook cells, Reads json text notebook cells ∧ Usable cells

theorem reads_withCells (hjson : json.Lawful) (h : Reads json text notebook cells)
    (hfits : (∀ cell ∈ cells, Fits 125 cell) → ∀ cell ∈ after, Fits 125 cell) :
    Reads json (json.toStringPretty (withCells after notebook))
      ((withCells after notebook).mapFloats json.refloat)
      (mapFloatsValues json.refloat after) := by
  obtain ⟨hread, hcells⟩ := h
  have hnotebook := hjson.reads hread
  cases notebook with
  | object entries =>
    have hentry : getEntry entries "cells" = some (.array cells) := by
      unfold cellsOf at hcells
      split at hcells
      · rename_i hget
        cases hcells
        exact hget
      · cases hcells
    have hold : Fits 126 (.array cells) := ⟨proper_of_getEntry hnotebook.1 hentry,
      Nat.le_of_lt_succ ((depth_of_getEntry hentry).trans_le hnotebook.2)⟩
    have hnew : Fits 127 (withCells after (.object entries)) :=
      (Fits.mk hnotebook.1 hnotebook.2).insert
        (fits_array_iff.mpr (hfits (fits_array_iff.mp hold)))
    have hback := hjson.readsBack hnew.proper hnew.depth (forall_mem_nil (· = '\n'))
    rw [append_nil] at hback
    refine ⟨hback, ?_⟩
    have hget : ((withCells after (.object entries)).mapFloats json.refloat).get "cells" =
        some (.array (mapFloatsValues json.refloat after)) := by
      change getEntry (mapFloatsEntries json.refloat _) "cells" = _
      rw [getEntry_mapFloatsEntries, getEntry_insertEntry, if_pos rfl]
      rfl
    rw [cellsOf, hget]
  | _ => cases hcells

theorem withCells_spec (h : cellsOf notebook = some cells) (after : List Value) :
    cellsOf (withCells after notebook) = some after ∧
      ∀ key, key ≠ "cells" → (withCells after notebook).get key = notebook.get key := by
  cases notebook with
  | object entries =>
    refine ⟨?_, fun key hkey => ?_⟩
    · have hget : (withCells after (.object entries)).get "cells" = some (.array after) :=
        (getEntry_insertEntry _ _ _ _).trans (if_pos rfl)
      rw [cellsOf, hget]
    · exact (getEntry_insertEntry _ _ _ _).trans (if_neg hkey.symm)
  | _ => cases h

theorem usableFile_of_freshEdit (hjson : json.Lawful) {next : List Char}
    (h : UsableFile json text) (hedit : FreshEdit json text next) : UsableFile json next := by
  obtain ⟨notebook, cells, hreads, husable⟩ := h
  obtain ⟨input, output, hcall, rfl, hfresh⟩ := hedit
  obtain ⟨notebook', cells', edit, hreads', hedit, -, hfile⟩ := executeNotebookEdit_ok hcall
  obtain ⟨hchanged, hfits⟩ := editCells_ok hedit
  rw [hfile]
  obtain ⟨rfl, rfl⟩ := hreads.eq hreads'
  refine ⟨_, _, reads_withCells hjson hreads hfits, usable_mapFloats _ ?_⟩
  exact usable_of_cellsEdited hchanged husable fun hmode => hfresh hmode _ _ hreads

/-- A call panics only where it replaces a cell that cannot be assigned; and the ids of
a notebook stay distinct as long as no id is inserted that is taken. -/
theorem notebookEdits_spec (hjson : json.Lawful) :
    (∀ file written input,
      executeNotebookEdit json file written input ≠ none ↔ Assigns json file input) ∧
    ∀ first last, UsableFile json first → Relation.ReflTransGen (FreshEdit json) first last →
      UsableFile json last ∧ ∀ input output,
        executeNotebookEdit json (.ok last) (.ok ()) input = some (.ok output) →
        ∃ notebook cells after, Reads json last notebook cells ∧
          CellsEdited cells input after output.cellId ∧
          output.updatedFile = json.toStringPretty (withCells after notebook) ∧
          cellsOf (withCells after notebook) = some after ∧
          ∀ key, key ≠ "cells" → (withCells after notebook).get key = notebook.get key := by
  refine ⟨fun file written input => executeNotebookEdit_ne_none_iff json file written input, ?_⟩
  intro first last hfirst hrun
  refine ⟨?_, ?_⟩
  · induction hrun with
    | refl => exact hfirst
    | tail _ hedit ih => exact usableFile_of_freshEdit hjson ih hedit
  · intro input output hcall
    obtain ⟨notebook, cells, edit, hreads, hedit, hid, hfile⟩ := executeNotebookEdit_ok hcall
    rw [hid]
    exact ⟨notebook, cells, edit.cells, hreads, (editCells_ok hedit).1, hfile,
      withCells_spec hreads.2 edit.cells⟩

end Runs

def notebookOf (cells : List Value) : Value := .object [("cells", .array cells)]

def cellWithId (id : String) : Value := .object [("id", .string id)]

def twoCells : List Value := [cellWithId "cell-1", cellWithId "cell-2"]

def fileOf (cells : List Value) : List Char := runtimeText.toStringPretty (notebookOf cells)

def edit (mode : NotebookEditMode) (cellId newSource : Option String) : NotebookEditInput :=
  ⟨"n.ipynb", cellId, newSource, none, some mode⟩

theorem executeNotebookEdit_fileOf {cells : List Value} (hproper : (notebookOf cells).Proper)
    (hdepth : (notebookOf cells).depth ≤ depthLimit) (mode : NotebookEditMode)
    (cellId newSource : Option String) :
    Reads runtimeText (fileOf cells) (notebookOf cells) cells ∧
      executeNotebookEdit runtimeText (.ok (fileOf cells)) (.ok ()) (edit mode cellId newSource) =
        (editCells cells (edit mode cellId newSource)).map (writeNotebook runtimeText (.ok ())
          (edit mode cellId newSource) (fileOf cells) (notebookOf cells)) := by
  have hreads : Reads runtimeText (fileOf cells) (notebookOf cells) cells := by
    have hback := runtimeText_lawful.readsBack hproper hdepth (forall_mem_nil (· = '\n'))
    rw [append_nil, runtimeText, mapFloats_id] at hback
    exact ⟨hback, rfl⟩
  have hpath : isNotebookPath "n.ipynb" = true := by decide
  refine ⟨hreads, ?_⟩
  rcases executeNotebookEdit_cases runtimeText (.ok (fileOf cells)) (.ok ())
    (edit mode cellId newSource) with ⟨-, hnot⟩ | ⟨_, notebook, others, -, ⟨⟩, hothers, heq⟩
  · exact absurd hreads (hnot _ _ _ hpath rfl)
  · obtain ⟨rfl, rfl⟩ := hreads.eq hothers
    exact heq

theorem usableFile_twoCells : UsableFile runtimeText (fileOf twoCells) := by
  refine ⟨_, _, (executeNotebookEdit_fileOf (by decide) (by decide) .delete none none).1, ?_⟩
  refine ⟨fun cell hcell => ?_, by decide⟩
  rcases mem_pair.mp hcell with rfl | rfl <;> exact ⟨⟨_, rfl⟩, rfl⟩

theorem freshEdit_twoCells :
    FreshEdit runtimeText (fileOf twoCells) (fileOf [cellWithId "cell-2"]) :=
  ⟨edit .delete (some "cell-1") none, _,
    (executeNotebookEdit_fileOf (by decide) (by decide) .delete (some "cell-1") none).2, rfl, nofun⟩

theorem notebookEdits_spec_twoCells :
    UsableFile runtimeText (fileOf [cellWithId "cell-2"]) :=
  ((notebookEdits_spec runtimeText_lawful).2 _ _ usableFile_twoCells
    (.single freshEdit_twoCells)).1

/-- The first of two cells is deleted, and the next one inserted has the id of the
second; and a cell that is a text cannot be replaced. -/
theorem notebookEdits_collide :
    (∃ deleted inserted,
      executeNotebookEdit runtimeText (.ok (fileOf twoCells)) (.ok ())
        (edit .delete (some "cell-1") none) = some (.ok deleted) ∧
      executeNotebookEdit runtimeText (.ok deleted.updatedFile) (.ok ())
        (edit .insert none (some "x")) = some (.ok inserted) ∧
      UsableFile runtimeText (fileOf twoCells) ∧
      ¬UsableFile runtimeText inserted.updatedFile) ∧
    executeNotebookEdit runtimeText (.ok (fileOf [.string "text"])) (.ok ())
      (edit .replace none (some "x")) = none := by
  refine ⟨⟨_, _,
    (executeNotebookEdit_fileOf (by decide) (by decide) .delete (some "cell-1") none).2,
    (executeNotebookEdit_fileOf (by decide) (by decide) .insert none (some "x")).2,
    usableFile_twoCells, ?_⟩, ?_⟩
  · have hreads := (@executeNotebookEdit_fileOf
      [cellWithId "cell-2", buildNotebookCell "cell-2" .code "x"] (by decide) (by decide)
      .delete none none).1
    rintro ⟨notebook, cells, hother, -, hnodup⟩
    obtain ⟨rfl, rfl⟩ := hreads.eq hother
    exact absurd hnodup (by decide)
  · exact (executeNotebookEdit_fileOf (by decide) (by decide) .replace none (some "x")).2

end DbClinic.Tools
