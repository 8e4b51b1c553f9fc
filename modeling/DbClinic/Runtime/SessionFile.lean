import DbClinic.Runtime.Session

/-!
Session files: loading, saving with rotation and an atomic replacement, and the
incremental append. A file is its content and its modification time. The clock
and the counter are read through the values they return. The length of a
directory is below the rotation limit, and its modification time counts as the
epoch.
-/

namespace DbClinic.Runtime

/-- A unit of a file's bytes: a character they decode to, or a byte that is no
UTF-8 there. -/
inductive TextUnit where
  | char (c : Char)
  | invalid (byte : UInt8)
  deriving DecidableEq

namespace TextUnit

def size : TextUnit → Nat
  | char c => c.utf8Size
  | invalid _ => 1

def asChar : TextUnit → Option Char
  | char c => some c
  | invalid _ => none

end TextUnit

theorem mapM_asChar (text : List Char) :
    (text.map TextUnit.char).mapM TextUnit.asChar = some text := by
  induction text with
  | nil => rfl
  | cons c rest ih =>
    rw [List.map_cons, List.mapM_cons, ih]
    rfl

structure SessionFile where
  content : List TextUnit
  modified : Nat
  deriving DecidableEq

/-- `metadata.len()`. -/
def SessionFile.len (file : SessionFile) : Nat := (file.content.map TextUnit.size).sum

abbrev SessionTree := FileTree SessionFile

/-- A fallible file operation: the tree after it, and its result. -/
abbrev FileOutcome (α : Type) := SessionTree × Except SessionError α

def ROTATE_AFTER_BYTES : Nat := 256 * 1024

def MAX_ROTATED_FILES : Nat := 3

/-- What the clock and the counter return during one save. -/
structure SaveStamps where
  rotated : Nat
  temp : Stamp
  written : Nat
  deriving DecidableEq

def treeWithFile (path : Path) (text : String) : SessionTree :=
  match (FileTree.empty.createDirAll path.dropLast : Except IoError SessionTree) with
  | .error _ => .empty
  | .ok t =>
    match t.writeFile path ⟨text.toList.map .char, 0⟩ with
    | .error _ => .empty
    | .ok t => t

def fileName (path : Path) : String := path.getLast?.getD "session"

def withFileName (path : Path) (name : String) : Path := path.dropLast ++ [name]

def temporaryPathFor (path : Path) (stamp : Stamp) : Path :=
  withFileName path (fileName path ++ ".tmp-" ++ toString stamp.millis ++ "-" ++
    toString stamp.counter)

def rotatedLogPath (path : Path) (millis : Nat) : Path :=
  withFileName path (Path.stem (fileName path) ++ ".rot-" ++ toString millis ++ ".jsonl")

/-- `fs::read_to_string`. -/
def readToString (t : SessionTree) (path : Path) : Except SessionError (List Char) :=
  match t.readFile path with
  | .error e => .error (.io e)
  | .ok file =>
    match file.content.mapM TextUnit.asChar with
    | some text => .ok text
    | none => .error (.io .invalidData)

/-- `fs::write`. -/
def writeText (t : SessionTree) (path : Path) (text : List TextUnit) (time : Nat) :
    FileOutcome Unit :=
  match t.writeFile path ⟨text, time⟩ with
  | .ok t' => (t', .ok ())
  | .error e => (t, .error (.io e))

def rotateSessionFileIfNeeded (t : SessionTree) (path : Path) (millis : Nat) :
    FileOutcome Unit :=
  match t.fileAt path with
  | none => (t, .ok ())
  | some file =>
    if file.len < ROTATE_AFTER_BYTES then (t, .ok ())
    else
      match t.rename path (rotatedLogPath path millis) with
      | .ok t' => (t', .ok ())
      | .error e => (t, .error (.io e))

def writeAtomic (t : SessionTree) (path : Path) (contents : List TextUnit) (temp : Stamp)
    (time : Nat) : FileOutcome Unit :=
  match t.createDirAll path.dropLast with
  | .error e => (t, .error (.io e))
  | .ok made =>
    let tempPath := temporaryPathFor path temp
    match made.writeFile tempPath ⟨contents, time⟩ with
    | .error e => (made, .error (.io e))
    | .ok written =>
      match written.rename tempPath path with
      | .error e => (written, .error (.io e))
      | .ok renamed => (renamed, .ok ())

def isRotatedName (stem name : String) : Bool :=
  (stem ++ ".rot-").toList.isPrefixOf name.toList &&
    match Path.extension name with
    | some ext => ext.toList.map Char.toLower = "jsonl".toList
    | none => false

def rotatedPaths (t : SessionTree) (path : Path) : List Path :=
  let names := (t.readDir path.dropLast).filter (isRotatedName (Path.stem (fileName path)))
  (names.map (withFileName path)).insertionSort fun a b =>
    ((t.fileAt a).map SessionFile.modified).getD 0 ≤
      ((t.fileAt b).map SessionFile.modified).getD 0

/-- Remove files one after the other, up to the first failure. -/
def removeFiles (t : SessionTree) : List Path → FileOutcome Unit
  | [] => (t, .ok ())
  | p :: rest =>
    match t.removeFile p with
    | .ok t' => removeFiles t' rest
    | .error e => (t, .error (.io e))

def cleanupRotatedLogs (t : SessionTree) (path : Path) : FileOutcome Unit :=
  let rotated := rotatedPaths t path
  removeFiles t (rotated.take (rotated.length - MAX_ROTATED_FILES))

namespace Session

def withPersistencePath (session : Session) (path : Path) : Session :=
  { session with persistencePath := some path }

def withWorkspaceRoot (session : Session) (root : String) : Session :=
  { session with workspaceRoot := some root }

def saveToPath (session : Session) (t : SessionTree) (path : Path) (stamps : SaveStamps) :
    FileOutcome Unit :=
  match session.renderJsonlSnapshot with
  | .error e => (t, .error e)
  | .ok snapshot =>
    match rotateSessionFileIfNeeded t path stamps.rotated with
    | (t₁, .error e) => (t₁, .error e)
    | (t₁, .ok ()) =>
      match writeAtomic t₁ path (snapshot.map .char) stamps.temp stamps.written with
      | (t₂, .error e) => (t₂, .error e)
      | (t₂, .ok ()) => cleanupRotatedLogs t₂ path

/-- One JSON object with a field `messages` is the older form of a session. -/
def hasMessages : Except JsonError JsonValue → Option JsonValue
  | .ok (.object object) =>
    if (getEntry object "messages").isSome then some (.object object) else none
  | _ => none

def loadFromPath (t : SessionTree) (path : Path) (now : Nat) (stamp : Stamp) :
    Except SessionError Session :=
  match readToString t path with
  | .error e => .error e
  | .ok contents =>
    let session := match hasMessages (JsonValue.parse contents) with
      | some value => fromJson value now stamp
      | none => fromJsonl contents now stamp
    session.map fun s => s.withPersistencePath path

theorem loadFromPath_path {t : SessionTree} {path : Path} {now : Nat} {stamp : Stamp}
    {session : Session} (h : loadFromPath t path now stamp = .ok session) :
    session.persistencePath = some path := by
  unfold loadFromPath at h
  split at h
  · cases h
  · rename_i contents _
    dsimp only at h
    cases hread : (match hasMessages (JsonValue.parse contents) with
        | some value => fromJson value now stamp
        | none => fromJsonl contents now stamp) with
    | error e =>
      rw [hread] at h
      cases h
    | ok s =>
      rw [hread] at h
      cases h
      rfl

def appendPersisted (session : Session) (t : SessionTree) (record : JsonValue)
    (stamps : SaveStamps) : FileOutcome Unit :=
  match session.persistencePath with
  | none => (t, .ok ())
  | some path =>
    match t.get path with
    | none => session.saveToPath t path stamps
    | some .dir => (t, .error (.io .isADirectory))
    | some (.file file) =>
      if file.len = 0 then session.saveToPath t path stamps
      else writeText t path (file.content ++ (renderLines [record]).map .char) stamps.written

/-- `push_message`: a message that could not be persisted is taken back. -/
def pushMessage (session : Session) (t : SessionTree) (message : ConversationMessage)
    (now : Nat) (stamps : SaveStamps) : Session × FileOutcome Unit :=
  let touched := session.touch now
  let pushed := { touched with messages := touched.messages ++ [message] }
  match pushed.appendPersisted t (messageRecord message) stamps with
  | (t', .ok ()) => (pushed, (t', .ok ()))
  | (t', .error e) => (touched, (t', .error e))

/-- `push_prompt_entry`: the entry stays, persisted or not. -/
def pushPromptEntry (session : Session) (t : SessionTree) (text : String) (timestampMs : Nat)
    (stamps : SaveStamps) : Session × FileOutcome Unit :=
  let entry : SessionPromptEntry := ⟨timestampMs, text⟩
  let pushed := { session with promptHistory := session.promptHistory ++ [entry] }
  (pushed, pushed.appendPersisted t entry.toJsonlRecord stamps)

@[simp] theorem pushMessage_sessionId (session : Session) (t : SessionTree)
    (message : ConversationMessage) (now : Nat) (stamps : SaveStamps) :
    (session.pushMessage t message now stamps).1.sessionId = session.sessionId := by
  unfold pushMessage
  dsimp only
  split <;> rfl

@[simp] theorem pushMessage_persistencePath (session : Session) (t : SessionTree)
    (message : ConversationMessage) (now : Nat) (stamps : SaveStamps) :
    (session.pushMessage t message now stamps).1.persistencePath = session.persistencePath := by
  unfold pushMessage
  dsimp only
  split <;> rfl

end Session

end DbClinic.Runtime
