import DbClinic.Lib.Windows
import DbClinic.Runtime.Text
import Mathlib.Algebra.Order.BigOperators.Group.List

/-!
The search of files for a regular expression. The file system, the regular
expressions and the patterns of file names are a parameter. Line numbers and options
are 64-bit numbers; the source is built with overflow checks, and a sum that does not
fit ends the search without a result.
-/

namespace DbClinic.Runtime.GrepSearch

open DbClinic.Windows List

structure GrepSearchInput where
  pattern : String
  path : Option String
  glob : Option String
  outputMode : Option String
  before : Option UInt64
  after : Option UInt64
  contextShort : Option UInt64
  context : Option UInt64
  lineNumbers : Option Bool
  caseInsensitive : Option Bool
  fileType : Option String
  headLimit : Option UInt64
  offset : Option UInt64
  multiline : Option Bool

structure GrepSearchOutput where
  mode : Option String
  numFiles : Nat
  filenames : List String
  content : Option String
  numLines : Option Nat
  numMatches : Option Nat
  appliedLimit : Option Nat
  appliedOffset : Option Nat
  deriving DecidableEq

/-- An error of the system, or of a pattern that does not compile. -/
inductive GrepError where
  | io (message : String)
  | invalidInput (message : String)
  deriving DecidableEq

/-- What is asked of a compiled regular expression. -/
structure Regex where
  isMatch : List Char → Bool
  findCount : List Char → Nat

structure GrepWorld where
  basePath : Option String → Except GrepError String
  buildRegex : (pattern : String) → (caseInsensitive dotMatchesNewLine : Bool) →
    Except GrepError Regex
  compileGlob : String → Except GrepError (String → Bool)
  collectSearchFiles : String → Except GrepError (List String)
  extension : String → Option String
  readToString : String → Option (List Char)

structure SearchSetup where
  regex : Regex
  globFilter : Option (String → Bool)
  paths : List String

def setup (world : GrepWorld) (input : GrepSearchInput) : Except GrepError SearchSetup := do
  let base ← world.basePath input.path
  let regex ← world.buildRegex input.pattern (input.caseInsensitive.getD false)
    (input.multiline.getD false)
  let globFilter ← input.glob.mapM world.compileGlob
  let paths ← world.collectSearchFiles base
  return ⟨regex, globFilter, paths⟩

def matchesOptionalFilters (world : GrepWorld) (path : String)
    (globFilter : Option (String → Bool)) (fileType : Option String) : Bool :=
  globFilter.all (fun glob => glob path) && fileType.all fun t => world.extension path = some t

def GrepSearchInput.contextLines (input : GrepSearchInput) : Nat :=
  ((input.context.or input.contextShort).getD 0).toNat

def GrepSearchInput.linesBefore (input : GrepSearchInput) : Nat :=
  (input.before.map UInt64.toNat).getD input.contextLines

def GrepSearchInput.linesAfter (input : GrepSearchInput) : Nat :=
  (input.after.map UInt64.toNat).getD input.contextLines

def GrepSearchInput.mode (input : GrepSearchInput) : String :=
  input.outputMode.getD "files_with_matches"

def applyLimit {α : Type} (items : List α) (limit offset : Option UInt64) :
    List α × Option Nat × Option Nat :=
  let offsetValue := (offset.getD 0).toNat
  let items := items.drop offsetValue
  let explicitLimit := (limit.getD 250).toNat
  let appliedOffset := if 0 < offsetValue then some offsetValue else none
  if explicitLimit = 0 then (items, none, appliedOffset)
  else
    (items.take explicitLimit, if explicitLimit < items.length then some explicitLimit else none,
      appliedOffset)

def matchedLines (regex : Regex) (lines : List (List Char)) : List Nat :=
  (lines.zipIdx.filter fun line => regex.isMatch line.1).map Prod.snd

def formatLine (input : GrepSearchInput) (path : String) (line : List Char × Nat) : String :=
  let linePrefix :=
    if input.lineNumbers.getD true then path ++ ":" ++ toString (line.2 + 1) ++ ":"
    else path ++ ":"
  linePrefix ++ String.ofList line.1

/-- The end of the lines around a match, before it is cut off at the end of the
file. -/
def windowEnd (input : GrepSearchInput) (index : Nat) : Option Nat :=
  if index + input.linesAfter + 1 < 2 ^ 64 then some (index + input.linesAfter + 1) else none

def linesAround (input : GrepSearchInput) (path : String) (lines : List (List Char))
    (index : Nat) : Option (List String) :=
  (windowEnd input index).map fun stop =>
    ((lines.zipIdx.take (min stop lines.length)).drop (index - input.linesBefore)).map
      (formatLine input path)

structure Found where
  filenames : List String
  contentLines : List String
  totalMatches : Nat

/-- The body of the loop over the files. -/
def searchFile (world : GrepWorld) (s : SearchSetup) (input : GrepSearchInput) (path : String)
    (found : Found) : Option Found :=
  if matchesOptionalFilters world path s.globFilter input.fileType then
    match world.readToString path with
    | none => some found
    | some contents =>
      if input.mode = "count" then
        let count := s.regex.findCount contents
        if 0 < count then
          some { found with
            filenames := found.filenames ++ [path]
            totalMatches := found.totalMatches + count }
        else some found
      else
        let lines := textLines contents
        let matched := matchedLines s.regex lines
        if matched = [] then some found
        else
          let named := { found with
            filenames := found.filenames ++ [path]
            totalMatches := found.totalMatches + matched.length }
          if input.mode = "content" then
            (matched.mapM (linesAround input path lines)).map fun parts =>
              { named with contentLines := named.contentLines ++ parts.flatten }
          else some named
  else some found

def searchFiles (world : GrepWorld) (s : SearchSetup) (input : GrepSearchInput) :
    List String → Found → Option Found
  | [], found => some found
  | path :: rest, found =>
    (searchFile world s input path found).bind (searchFiles world s input rest)

def buildGrepContentOutput (mode : String) (filenames contentLines : List String)
    (headLimit offset : Option UInt64) : GrepSearchOutput :=
  let (lines, limit, offset) := applyLimit contentLines headLimit offset
  { mode := some mode, numFiles := filenames.length, filenames
    content := some (joinText "\n" lines), numLines := some lines.length, numMatches := none
    appliedLimit := limit, appliedOffset := offset }

/-- `grep_search`; none where the source panics. -/
def grepSearch (world : GrepWorld) (input : GrepSearchInput) :
    Option (Except GrepError GrepSearchOutput) :=
  match setup world input with
  | .error error => some (.error error)
  | .ok s =>
    (searchFiles world s input s.paths ⟨[], [], 0⟩).map fun found =>
      let (filenames, appliedLimit, appliedOffset) :=
        applyLimit found.filenames input.headLimit input.offset
      if input.mode = "content" then
        .ok (buildGrepContentOutput input.mode filenames found.contentLines input.headLimit
          input.offset)
      else
        .ok { mode := some input.mode, numFiles := filenames.length, filenames, content := none
              numLines := none
              numMatches := if input.mode = "count" then some found.totalMatches else none
              appliedLimit, appliedOffset }

theorem zipIdx_eq (lines : List (List Char)) :
    lines.zipIdx = (List.range lines.length).map fun i => (lines.getD i [], i) := by
  apply ext_getElem
  · simp
  · intro i hi hi'
    simp only [length_zipIdx] at hi
    simp [hi]

theorem matchedLines_eq (regex : Regex) (lines : List (List Char)) :
    matchedLines regex lines =
      (List.range lines.length).filter fun i => regex.isMatch (lines.getD i []) := by
  simp [matchedLines, zipIdx_eq, filter_map, Function.comp_def]

theorem matchedLines_sorted (regex : Regex) (lines : List (List Char)) :
    (matchedLines regex lines).Pairwise (· < ·) := by
  rw [matchedLines_eq]
  exact List.Pairwise.filter _ pairwise_lt_range

theorem mem_matchedLines {regex : Regex} {lines : List (List Char)} {i : Nat} :
    i ∈ matchedLines regex lines ↔
      i < lines.length ∧ regex.isMatch (lines.getD i []) = true := by
  simp [matchedLines_eq]

def lineAt (lines : List (List Char)) (i : Nat) : List Char × Nat := (lines.getD i [], i)

variable {input : GrepSearchInput} {index : Nat} {matched : List Nat}

theorem linesAround_eq (path : String) (lines : List (List Char))
    (h : index + input.linesAfter + 1 < 2 ^ 64) :
    linesAround input path lines index =
      some ((window input.linesBefore input.linesAfter lines.length index).map
        fun i => formatLine input path (lineAt lines i)) := by
  simp only [linesAround, windowEnd, if_pos h, Option.map_some, window, zipIdx_eq, lineAt,
    map_take, map_drop, map_map, Function.comp_def]

theorem mapM_linesAround (path : String) (lines : List (List Char))
    (h : ∀ index ∈ matched, index + input.linesAfter + 1 < 2 ^ 64) :
    ∃ parts, matched.mapM (linesAround input path lines) = some parts ∧
      parts.flatten = (windows input.linesBefore input.linesAfter lines.length matched).map
        fun i => formatLine input path (lineAt lines i) := by
  induction matched with
  | nil => exact ⟨[], by simp, by simp [windows]⟩
  | cons index matched ih =>
    obtain ⟨hfirst, hmore⟩ := forall_mem_cons.mp h
    obtain ⟨parts, hparts, hflat⟩ := ih hmore
    refine ⟨_, by simp [linesAround_eq path lines hfirst, hparts]; rfl, ?_⟩
    simp [hflat, windows]

theorem mapM_linesAround_none (path : String) (lines : List (List Char)) (hmem : index ∈ matched)
    (h : ¬ index + input.linesAfter + 1 < 2 ^ 64) :
    matched.mapM (linesAround input path lines) = none := by
  induction matched with
  | nil => cases hmem
  | cons first matched ih =>
    rcases mem_cons.mp hmem with rfl | hmem
    · have hnone : linesAround input path lines index = none := by
        simp only [linesAround, windowEnd, if_neg h, Option.map_none]
      simp [hnone]
    · cases hfirst : linesAround input path lines first with
      | none => simp [hfirst]
      | some part => simp [hfirst, ih hmem]

def fileLines (world : GrepWorld) (s : SearchSetup) (input : GrepSearchInput) (path : String) :
    Option (List (List Char)) :=
  if matchesOptionalFilters world path s.globFilter input.fileType then
    (world.readToString path).map textLines
  else none

def filesOf (world : GrepWorld) (s : SearchSetup) (input : GrepSearchInput)
    (paths : List String) : List (String × List (List Char)) :=
  paths.filterMap fun path => (fileLines world s input path).map fun lines => (path, lines)

def hits (regex : Regex) (files : List (String × List (List Char))) :
    List (String × List (List Char)) :=
  files.filter fun file => matchedLines regex file.2 ≠ []

/-- Each line within the requested distance of a matching line, once and in order. -/
def linesNear (regex : Regex) (input : GrepSearchInput) (file : String × List (List Char)) :
    List String :=
  (near input.linesBefore input.linesAfter file.2.length (matchedLines regex file.2)).map
    fun i => formatLine input file.1 (lineAt file.2 i)

def linesInWindows (regex : Regex) (input : GrepSearchInput)
    (file : String × List (List Char)) : List String :=
  (windows input.linesBefore input.linesAfter file.2.length (matchedLines regex file.2)).map
    fun i => formatLine input file.1 (lineAt file.2 i)

/-- No sum of a line number and an option passes the largest number. -/
def Fits (regex : Regex) (input : GrepSearchInput) (file : String × List (List Char)) : Prop :=
  ∀ index ∈ matchedLines regex file.2, index + input.linesAfter + 1 < 2 ^ 64

def Found.add (found : Found) (regex : Regex) (file : String × List (List Char))
    (printed : List String) : Found where
  filenames := found.filenames ++ (hits regex [file]).map Prod.fst
  contentLines := found.contentLines ++ printed
  totalMatches := found.totalMatches + (matchedLines regex file.2).length

section Search

variable {world : GrepWorld} {s : SearchSetup} {input : GrepSearchInput} {path : String}
  {lines : List (List Char)} {found : Found}

theorem searchFile_skipped (h : fileLines world s input path = none) :
    searchFile world s input path found = some found := by
  unfold fileLines at h
  unfold searchFile
  split at h
  · rename_i hselected
    rw [if_pos hselected, Option.map_eq_none_iff.mp h]
  · rename_i hselected
    rw [if_neg hselected]

theorem searchFile_lines (hmode : input.mode = "content")
    (h : fileLines world s input path = some lines) :
    searchFile world s input path found =
      ((matchedLines s.regex lines).mapM (linesAround input path lines)).map fun parts =>
        found.add s.regex (path, lines) parts.flatten := by
  unfold fileLines at h
  split at h
  · rename_i hselected
    obtain ⟨contents, hread, rfl⟩ := Option.map_eq_some_iff.mp h
    by_cases hnone : matchedLines s.regex (textLines contents) = []
    · simp [searchFile, hselected, hread, hmode, hnone, Found.add, hits]
    · simp [searchFile, hselected, hread, hmode, hnone, Found.add, hits]
  · cases h

theorem searchFile_fits (hmode : input.mode = "content")
    (h : fileLines world s input path = some lines) (hfits : Fits s.regex input (path, lines)) :
    searchFile world s input path found =
      some (found.add s.regex (path, lines) (linesInWindows s.regex input (path, lines))) := by
  obtain ⟨parts, hparts, hflat⟩ := mapM_linesAround path lines hfits
  simp [searchFile_lines hmode h, hparts, hflat, linesInWindows]

theorem searchFile_overflows (hmode : input.mode = "content")
    (h : fileLines world s input path = some lines) (hfits : ¬ Fits s.regex input (path, lines)) :
    searchFile world s input path found = none := by
  unfold Fits at hfits
  push Not at hfits
  obtain ⟨index, hmem, hlarge⟩ := hfits
  have hnot : ¬ index + input.linesAfter + 1 < 2 ^ 64 := Nat.not_lt.mpr hlarge
  simp [searchFile_lines hmode h, mapM_linesAround_none path lines hmem hnot]

theorem searchFiles_fits (hmode : input.mode = "content") (paths : List String)
    (hfits : ∀ file ∈ filesOf world s input paths, Fits s.regex input file) :
    searchFiles world s input paths found =
      some ((filesOf world s input paths).foldl
        (fun found file => found.add s.regex file (linesInWindows s.regex input file)) found) := by
  induction paths generalizing found with
  | nil => rfl
  | cons path paths ih =>
    cases hlines : fileLines world s input path with
    | none =>
      have hsame : filesOf world s input (path :: paths) = filesOf world s input paths := by
        simp [filesOf, hlines]
      rw [hsame] at hfits ⊢
      simp [searchFiles, searchFile_skipped hlines, ih hfits]
    | some lines =>
      have hsame : filesOf world s input (path :: paths) =
          (path, lines) :: filesOf world s input paths := by
        simp [filesOf, hlines]
      rw [hsame] at hfits ⊢
      obtain ⟨hfirst, hmore⟩ := forall_mem_cons.mp hfits
      simp [searchFiles, searchFile_fits hmode hlines hfirst, ih hmore]

theorem searchFiles_overflows (hmode : input.mode = "content") (paths : List String)
    (h : ∃ file ∈ filesOf world s input paths, ¬ Fits s.regex input file) :
    searchFiles world s input paths found = none := by
  induction paths generalizing found with
  | nil =>
    obtain ⟨file, hfile, -⟩ := h
    simp [filesOf] at hfile
  | cons path paths ih =>
    cases hlines : fileLines world s input path with
    | none =>
      have hsame : filesOf world s input (path :: paths) = filesOf world s input paths := by
        simp [filesOf, hlines]
      rw [hsame] at h
      simp [searchFiles, searchFile_skipped hlines, ih h]
    | some lines =>
      have hsame : filesOf world s input (path :: paths) =
          (path, lines) :: filesOf world s input paths := by
        simp [filesOf, hlines]
      rw [hsame] at h
      by_cases hfirst : Fits s.regex input (path, lines)
      · obtain ⟨file, hfile, hnot⟩ := h
        rcases mem_cons.mp hfile with rfl | hfile
        · exact absurd hfirst hnot
        · simp [searchFiles, searchFile_fits hmode hlines hfirst, ih ⟨file, hfile, hnot⟩]
      · simp [searchFiles, searchFile_overflows hmode hlines hfirst]

theorem foldl_add (regex : Regex) (printed : String × List (List Char) → List String)
    (files : List (String × List (List Char))) (found : Found) :
    (files.foldl (fun found file => found.add regex file (printed file)) found).filenames =
        found.filenames ++ (hits regex files).map Prod.fst ∧
      (files.foldl (fun found file => found.add regex file (printed file)) found).contentLines =
        found.contentLines ++ files.flatMap printed := by
  induction files generalizing found with
  | nil => simp [hits]
  | cons file files ih =>
    obtain ⟨hnames, hlines⟩ := ih (found.add regex file (printed file))
    refine ⟨?_, ?_⟩
    · rw [foldl_cons, hnames]
      simp only [Found.add, hits, filter_cons, filter_nil, append_assoc]
      split <;> simp
    · rw [foldl_cons, hlines]
      simp [Found.add]

theorem grepSearch_fits (hs : setup world input = .ok s) (hmode : input.mode = "content")
    (hfits : ∀ file ∈ filesOf world s input s.paths, Fits s.regex input file) :
    grepSearch world input = some (.ok (buildGrepContentOutput input.mode
      (applyLimit ((hits s.regex (filesOf world s input s.paths)).map Prod.fst) input.headLimit
        input.offset).1
      ((filesOf world s input s.paths).flatMap (linesInWindows s.regex input))
      input.headLimit input.offset)) := by
  obtain ⟨hnames, hlines⟩ := foldl_add s.regex (linesInWindows s.regex input)
    (filesOf world s input s.paths) ⟨[], [], 0⟩
  simp [grepSearch, hs, hmode, searchFiles_fits hmode s.paths hfits, hnames, hlines]

end Search

def GrepSearchInput.forContent (input : GrepSearchInput) (headLimit offset : Option UInt64) :
    GrepSearchInput :=
  { input with outputMode := some "content", headLimit, offset }

/-- Whenever the search can start, it ends, and each line near a match is printed once, in
the order of the file. -/
def OutputsOnce (world : GrepWorld) (input : GrepSearchInput) : Prop :=
  ∀ s, setup world input = .ok s → ∀ headLimit offset,
    grepSearch world (input.forContent headLimit offset) =
      some (.ok (buildGrepContentOutput "content"
        (applyLimit ((hits s.regex (filesOf world s input s.paths)).map Prod.fst) headLimit
          offset).1
        ((filesOf world s input s.paths).flatMap (linesNear s.regex input)) headLimit offset))

/-- In each file that is looked at the line numbers fit, and the windows around the
matches do not overlap. -/
def WindowsApart (world : GrepWorld) (input : GrepSearchInput) : Prop :=
  ∀ s, setup world input = .ok s → ∀ file ∈ filesOf world s input s.paths,
    Fits s.regex input file ∧
      Apart input.linesBefore input.linesAfter (matchedLines s.regex file.2)

section Once

variable {world : GrepWorld} {s : SearchSetup} {input : GrepSearchInput}
  {headLimit offset : Option UInt64}

theorem forContent_fits (hs : setup world input = .ok s)
    (hfits : ∀ file ∈ filesOf world s input s.paths, Fits s.regex input file) :
    grepSearch world (input.forContent headLimit offset) =
      some (.ok (buildGrepContentOutput "content"
        (applyLimit ((hits s.regex (filesOf world s input s.paths)).map Prod.fst) headLimit
          offset).1
        ((filesOf world s input s.paths).flatMap (linesInWindows s.regex input))
        headLimit offset)) := by
  have hsetup : setup world (input.forContent headLimit offset) = .ok s := hs
  exact grepSearch_fits hsetup rfl hfits

theorem forContent_overflows (hs : setup world input = .ok s)
    (h : ∃ file ∈ filesOf world s input s.paths, ¬ Fits s.regex input file) :
    grepSearch world (input.forContent headLimit offset) = none := by
  have hsetup : setup world (input.forContent headLimit offset) = .ok s := hs
  have hnone : ∀ found,
      searchFiles world s (input.forContent headLimit offset) s.paths found = none :=
    fun _ => searchFiles_overflows rfl s.paths h
  simp [grepSearch, hsetup, hnone]

theorem length_linesNear_le (regex : Regex) (file : String × List (List Char)) :
    (linesNear regex input file).length ≤ (linesInWindows regex input file).length := by
  simpa [linesNear, linesInWindows] using length_near_le

variable {regex : Regex}

theorem length_linesNear_lt {file : String × List (List Char)}
    (h : ¬ Apart input.linesBefore input.linesAfter (matchedLines regex file.2)) :
    (linesNear regex input file).length < (linesInWindows regex input file).length := by
  have hbound : ∀ j ∈ matchedLines regex file.2, j < file.2.length :=
    fun _ hj => (mem_matchedLines.mp hj).1
  simpa [linesNear, linesInWindows] using length_near_lt (matchedLines_sorted _ _) hbound h

theorem numLines_unlimited (filenames contentLines : List String) :
    (buildGrepContentOutput "content" filenames contentLines (some 0) none).numLines =
      some contentLines.length := by
  simp [buildGrepContentOutput, applyLimit]

theorem apart_of_length {files : List (String × List (List Char))}
    (h : (files.flatMap (linesInWindows regex input)).length =
      (files.flatMap (linesNear regex input)).length) :
    ∀ file ∈ files, Apart input.linesBefore input.linesAfter (matchedLines regex file.2) := by
  intro file hfile
  by_contra hoverlap
  have hlt := sum_lt_sum (fun file => (linesNear regex input file).length)
    (fun file => (linesInWindows regex input file).length)
    (fun file _ => length_linesNear_le regex file) ⟨file, hfile, length_linesNear_lt hoverlap⟩
  simp only [length_flatMap] at h
  omega

theorem windowsApart_of_outputsOnce (honce : OutputsOnce world input) :
    WindowsApart world input := by
  intro s hs
  have hunlimited := honce s hs (some 0) none
  have hfits : ∀ file ∈ filesOf world s input s.paths, Fits s.regex input file := by
    by_contra hnot
    push Not at hnot
    rw [forContent_overflows hs hnot] at hunlimited
    cases hunlimited
  rw [forContent_fits hs hfits] at hunlimited
  have hlen := congrArg GrepSearchOutput.numLines
    (Except.ok.inj (Option.some.inj hunlimited))
  rw [numLines_unlimited, numLines_unlimited] at hlen
  have hapart := apart_of_length (Option.some.inj hlen)
  exact fun file hfile => ⟨hfits file hfile, hapart file hfile⟩

theorem outputsOnce_of_windowsApart (hapart : WindowsApart world input) :
    OutputsOnce world input := by
  intro s hs headLimit offset
  have hlines : (filesOf world s input s.paths).flatMap (linesInWindows s.regex input) =
      (filesOf world s input s.paths).flatMap (linesNear s.regex input) := by
    apply flatMap_congr
    intro file hfile
    simp only [linesInWindows, linesNear, windows_eq_near (hapart s hs file hfile).2]
  rw [forContent_fits hs fun file hfile => (hapart s hs file hfile).1, hlines]

end Once

/-- A search for content prints each line near a match once, in order and without an
overflow, exactly when any two matching lines of a file are further apart than their
windows reach. -/
theorem outputs_once_iff (world : GrepWorld) (input : GrepSearchInput) :
    OutputsOnce world input ↔ WindowsApart world input :=
  ⟨windowsApart_of_outputsOnce, outputsOnce_of_windowsApart⟩

def everyLineMatches (contents : List Char) : GrepWorld where
  basePath := fun _ => .ok "/workspace"
  buildRegex := fun _ _ _ => .ok ⟨fun _ => true, fun _ => 1⟩
  compileGlob := fun _ => .ok fun _ => true
  collectSearchFiles := fun _ => .ok ["/workspace/a"]
  extension := fun _ => none
  readToString := fun _ => some contents

def oneLineAround : GrepSearchInput where
  pattern := ""
  path := none
  glob := none
  outputMode := some "content"
  before := none
  after := none
  contextShort := none
  context := some 1
  lineNumbers := none
  caseInsensitive := none
  fileType := none
  headLimit := none
  offset := none
  multiline := none

/-- Two adjacent matching lines are printed twice each, and a window past the largest
number ends the search. -/
theorem adjacent_matches_print_twice :
    ((∃ output, grepSearch (everyLineMatches "x\ny".toList) oneLineAround = some (.ok output) ∧
        output.content =
          some "/workspace/a:1:x\n/workspace/a:2:y\n/workspace/a:1:x\n/workspace/a:2:y") ∧
      ¬ OutputsOnce (everyLineMatches "x\ny".toList) oneLineAround) ∧
      ∀ headLimit offset,
        grepSearch (everyLineMatches "x".toList)
          (GrepSearchInput.forContent { oneLineAround with after := some (-1) }
            headLimit offset) = none := by
  refine ⟨⟨⟨_, rfl, by decide⟩, ?_⟩, ?_⟩
  · intro honce
    obtain ⟨-, hapart⟩ := windowsApart_of_outputsOnce honce _ rfl
      ("/workspace/a", ["x".toList, "y".toList]) (by decide)
    exact absurd hapart (by decide)
  · intro headLimit offset
    apply forContent_overflows rfl
    refine ⟨("/workspace/a", ["x".toList]), by decide, ?_⟩
    intro hfits
    exact absurd (hfits 0 (by decide)) (by decide)

end DbClinic.Runtime.GrepSearch
