import DbClinic.Lib.LinkTreeUpdates
import DbClinic.Runtime.PathBuf

/-!
Reading, writing and editing a file of the workspace, over a tree with symbolic
links. The working directory is a location of the tree, or is gone. A run keeps
the locations of the files that it opened, to read or to write.
-/

namespace DbClinic.Runtime.FileOps

open LinkTree

abbrev Files := LinkTree.Tree ByteArray

/-- The links that the system follows in one resolution. -/
def maxLinks : Nat := 40

def maxReadSize : Nat := 10 * 1024 * 1024

def maxWriteSize : Nat := 10 * 1024 * 1024

inductive ErrorKind where
  | notFound
  | permissionDenied
  | invalidData
  | invalidInput
  deriving DecidableEq

/-- An error of the operating system, or one of these functions. -/
inductive IoError where
  | os (fault : Fault)
  | noWorkingDirectory
  | new (kind : ErrorKind) (message : String)
  deriving DecidableEq

structure TextFilePayload where
  filePath : String
  content : String
  numLines : Nat
  startLine : Nat
  totalLines : Nat

structure StructuredPatchHunk where
  oldStart : Nat
  oldLines : Nat
  newStart : Nat
  newLines : Nat
  lines : List String

structure WriteFileOutput where
  kind : String
  filePath : String
  content : String
  structuredPatch : List StructuredPatchHunk
  originalFile : Option String

structure EditFileOutput where
  filePath : String
  oldString : String
  newString : String
  originalFile : String
  structuredPatch : List StructuredPatchHunk
  userModified : Bool
  replaceAll : Bool

structure Run (A : Type) where
  result : Except IoError A
  tree : Files
  opened : List Location

section Paths

variable (t : Files) (cwd : Option Location)

/-- `Path::canonicalize`. -/
def canonicalize (p : PathBuf) : Except IoError PathBuf :=
  if p.absolute = false ∧ p.names = [] then .error (.new .notFound "No such file or directory")
  else
    match (if p.absolute then some [] else cwd) with
    | none => .error .noWorkingDirectory
    | some here =>
      match walk t maxLinks here p.osNames with
      | .ok (l, _) => .ok (.ofLocation l)
      | .error f => .error (.os f)

/-- The path that both ways of normalising start from. -/
def candidatePath (path : String) : Except IoError PathBuf :=
  if PathBuf.isAbsoluteText path then .ok (.ofText path)
  else
    match cwd with
    | none => .error .noWorkingDirectory
    | some here => .ok ((PathBuf.ofLocation here).join path)

def normalizePath (path : String) : Except IoError PathBuf := do
  let candidate ← candidatePath cwd path
  canonicalize t cwd candidate

/-- The fallback of `normalize_path_allow_missing` for a path that does not
resolve: only the parent is resolved, if it can be. -/
def missingPath (candidate : PathBuf) : PathBuf :=
  match candidate.parent, candidate.fileName with
  | some parent, some name =>
    match canonicalize t cwd parent with
    | .ok canonicalParent => canonicalParent.push name
    | .error _ => parent.push name
  | _, _ => candidate

def normalizePathAllowMissing (path : String) : Except IoError PathBuf := do
  let candidate ← candidatePath cwd path
  match canonicalize t cwd candidate with
  | .ok canonical => .ok canonical
  | .error _ => .ok (missingPath t cwd candidate)

def canonicalizeWorkspaceRoot (workspaceRoot : PathBuf) : PathBuf :=
  match canonicalize t cwd workspaceRoot with
  | .ok canonical => canonical
  | .error _ => workspaceRoot

end Paths

def validateWorkspaceBoundary (resolved workspaceRoot : PathBuf) : Except IoError Unit :=
  if resolved.startsWith workspaceRoot then .ok ()
  else
    .error (.new .permissionDenied ("path " ++ resolved.display ++ " escapes workspace boundary " ++
      workspaceRoot.display))

def openFile (t : Files) (p : PathBuf) : Except IoError (Location × ByteArray) :=
  match walk t maxLinks [] p.osNames with
  | .error f => .error (.os f)
  | .ok (l, _) =>
    if IsDir t l then .error (.os .isDirectory)
    else
      match t l with
      | some (.file bytes) => .ok (l, bytes)
      | _ => .error (.os .notDirectory)

def decode (bytes : ByteArray) : Except IoError String :=
  match String.fromUTF8? bytes with
  | some text => .ok text
  | none => .error (.new .invalidData "stream did not contain valid UTF-8")

def isBinary (bytes : ByteArray) : Bool := (bytes.toList.take 8192).contains 0

def makePatch (original updated : String) : List StructuredPatchHunk :=
  let old := (textLines original.toList).map String.ofList
  let new := (textLines updated.toList).map String.ofList
  [⟨1, old.length, 1, new.length, old.map ("-" ++ ·) ++ new.map ("+" ++ ·)⟩]

/-- The window of lines that a read returns. -/
def selectLines (p : PathBuf) (content : String) (offset limit : Option Nat) : TextFilePayload :=
  let lines := (textLines content.toList).map String.ofList
  let startIndex := min (offset.getD 0) lines.length
  let endIndex := (limit.map fun limit => min (startIndex + limit) lines.length).getD lines.length
  let selected := joinText "\n" ((lines.take endIndex).drop startIndex)
  ⟨p.display, selected, endIndex - startIndex, startIndex + 1, lines.length⟩

section Operations

variable (t : Files) (cwd : Option Location)

def readFile (path : String) (offset limit : Option Nat) : Run TextFilePayload :=
  match normalizePath t cwd path with
  | .error e => ⟨.error e, t, []⟩
  | .ok absolutePath =>
    match openFile t absolutePath with
    | .error e => ⟨.error e, t, []⟩
    | .ok (l, bytes) =>
      if maxReadSize < bytes.size then
        ⟨.error (.new .invalidData ("file is too large (" ++ toString bytes.size ++
          " bytes, max " ++ toString maxReadSize ++ " bytes)")), t, []⟩
      else if isBinary bytes then
        ⟨.error (.new .invalidData "file appears to be binary"), t, [l]⟩
      else
        match decode bytes with
        | .error e => ⟨.error e, t, [l]⟩
        | .ok content => ⟨.ok (selectLines absolutePath content offset limit), t, [l]⟩

/-- The text of the file before a write, if there is one to read. -/
def originalFile (absolutePath : PathBuf) : Option String × List Location :=
  match openFile t absolutePath with
  | .error _ => (none, [])
  | .ok (l, bytes) => ((decode bytes).toOption, [l])

/-- The directories made before a write. -/
def makeParent (absolutePath : PathBuf) : Except Fault Unit × Files :=
  match absolutePath.parent with
  | some parent => createDirAll t maxLinks parent.osNames.reverse
  | none => (.ok (), t)

/-- `write_file` after the path is normalised. -/
def writeAt (absolutePath : PathBuf) (content : String) : Run WriteFileOutput :=
  let original := originalFile t absolutePath
  match makeParent t absolutePath with
  | (.error f, t') => ⟨.error (.os f), t', original.2⟩
  | (.ok _, t') =>
    match landing t' maxLinks [] absolutePath.osNames with
    | .error f => ⟨.error (.os f), t', original.2⟩
    | .ok l =>
      ⟨.ok ⟨if original.1.isSome then "update" else "create", absolutePath.display, content,
          makePatch (original.1.getD "") content, original.1⟩,
        Function.update t' l (some (.file content.toUTF8)), original.2 ++ [l]⟩

def writeFile (path content : String) : Run WriteFileOutput :=
  if maxWriteSize < content.utf8ByteSize then
    ⟨.error (.new .invalidData ("content is too large (" ++ toString content.utf8ByteSize ++
      " bytes, max " ++ toString maxWriteSize ++ " bytes)")), t, []⟩
  else
    match normalizePathAllowMissing t cwd path with
    | .error e => ⟨.error e, t, []⟩
    | .ok absolutePath => writeAt t absolutePath content

/-- `str::replace`, an empty pattern included. -/
def replaceAllText (old new content : List Char) : List Char :=
  if old = [] then new ++ content.flatMap fun c => c :: new else replaceText old new content

/-- `str::replacen` with a count of one. -/
def replaceFirst (old new content : List Char) : List Char :=
  match splitOnce old content with
  | some (before, after) => before ++ new ++ after
  | none => content

def editedText (oldString newString original : String) (replaceAll : Bool) : String :=
  let edit := if replaceAll then replaceAllText else replaceFirst
  String.ofList (edit oldString.toList newString.toList original.toList)

def editFile (path oldString newString : String) (replaceAll : Bool) : Run EditFileOutput :=
  match normalizePath t cwd path with
  | .error e => ⟨.error e, t, []⟩
  | .ok absolutePath =>
    match openFile t absolutePath with
    | .error e => ⟨.error e, t, []⟩
    | .ok (l, bytes) =>
      match decode bytes with
      | .error e => ⟨.error e, t, [l]⟩
      | .ok original =>
        if oldString = newString then
          ⟨.error (.new .invalidInput "old_string and new_string must differ"), t, [l]⟩
        else if containsText oldString.toList original.toList = false then
          ⟨.error (.new .notFound "old_string not found in file"), t, [l]⟩
        else
          let updated := editedText oldString newString original replaceAll
          match landing t maxLinks [] absolutePath.osNames with
          | .error f => ⟨.error (.os f), t, [l]⟩
          | .ok l' =>
            ⟨.ok ⟨absolutePath.display, oldString, newString, original,
                makePatch original updated, false, replaceAll⟩,
              Function.update t l' (some (.file updated.toUTF8)), [l, l']⟩

/-- The check in front of each operation: the path is normalised and compared
with the root, then the operation gets the same text. -/
def inWorkspace {A : Type} (normalized : Except IoError PathBuf) (workspaceRoot : PathBuf)
    (operation : Run A) : Run A :=
  match normalized with
  | .error e => ⟨.error e, t, []⟩
  | .ok absolutePath =>
    match validateWorkspaceBoundary absolutePath (canonicalizeWorkspaceRoot t cwd workspaceRoot) with
    | .error e => ⟨.error e, t, []⟩
    | .ok _ => operation

def readFileInWorkspace (path : String) (offset limit : Option Nat) (workspaceRoot : PathBuf) :
    Run TextFilePayload :=
  inWorkspace t cwd (normalizePath t cwd path) workspaceRoot (readFile t cwd path offset limit)

def writeFileInWorkspace (path content : String) (workspaceRoot : PathBuf) :
    Run WriteFileOutput :=
  inWorkspace t cwd (normalizePathAllowMissing t cwd path) workspaceRoot
    (writeFile t cwd path content)

def editFileInWorkspace (path oldString newString : String) (replaceAll : Bool)
    (workspaceRoot : PathBuf) : Run EditFileOutput :=
  inWorkspace t cwd (normalizePath t cwd path) workspaceRoot
    (editFile t cwd path oldString newString replaceAll)

end Operations

end DbClinic.Runtime.FileOps
