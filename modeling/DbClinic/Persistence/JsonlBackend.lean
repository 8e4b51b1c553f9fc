import DbClinic.Persistence.Records

/-!
The JSONL backend: one directory per session below `root/sessions`, or below
`root/sessions/<username>` for a record that names a user. A file is a list of
lines. A line is the rendering of one record or some other text; a rendering
has no line break in it, reads back as the record it was made from, and as no
record of another type. This is the serializer's contract and all that is used
of it. Directory and file operations act on a `FileTree`.
-/

namespace DbClinic.Persistence

inductive Line where
  | session (record : SessionRecord)
  | message (record : MessageRecord)
  | checkpoint (record : Checkpoint)
  | prompt (record : PromptHistoryRecord)
  | compaction (record : CompactionRecord)
  | other (text : String)
  deriving DecidableEq

namespace Line

def asSession : Line → Except PersistenceError SessionRecord
  | session r => .ok r
  | _ => .error .json

def asMessage : Line → Except PersistenceError MessageRecord
  | message r => .ok r
  | _ => .error .json

def asCheckpoint : Line → Except PersistenceError Checkpoint
  | checkpoint r => .ok r
  | _ => .error .json

def asPrompt : Line → Except PersistenceError PromptHistoryRecord
  | prompt r => .ok r
  | _ => .error .json

def asCompaction : Line → Except PersistenceError CompactionRecord
  | compaction r => .ok r
  | _ => .error .json

end Line

abbrev LineTree := FileTree (List Line)

/-- `serde_json::from_str` on the whole content of a file of one record. -/
def decodeWhole {α : Type} (decode : Line → Except PersistenceError α) :
    List Line → Except PersistenceError α
  | [line] => decode line
  | _ => .error .json

def liftIo {α : Type} : Except IoError α → Except PersistenceError α
  | .ok a => .ok a
  | .error e => .error (.io e)

structure JsonlBackend where
  root : Path
  tree : LineTree

namespace JsonlBackend

def sessionsDir (root : Path) : Path := root.join "sessions"

def sessionDir (root : Path) (sessionId : String) : Path :=
  (sessionsDir root).join sessionId

def userSessionDir (root : Path) (username sessionId : String) : Path :=
  ((sessionsDir root).join username).join sessionId

def metaPath (dir : Path) : Path := dir ++ ["meta.json"]
def messagesPath (dir : Path) : Path := dir ++ ["messages.jsonl"]
def checkpointsPath (dir : Path) : Path := dir ++ ["checkpoints.jsonl"]
def promptHistoryPath (dir : Path) : Path := dir ++ ["prompt_history.jsonl"]
def compactionPath (dir : Path) : Path := dir ++ ["compaction.json"]

def appendJsonlLine (t : LineTree) (path : Path) (line : Line) : Outcome LineTree Unit :=
  match t.writeFile path ((t.fileAt path).getD [] ++ [line]) with
  | .ok t' => (t', .ok ())
  | .error e => (t, .error (.io e))

def readJsonlLines (t : LineTree) (path : Path) : Except PersistenceError (List Line) := do
  if t.pathExists path then
    let content ← liftIo (t.readFile path)
    return content.filter fun line => line ≠ .other ""
  else return []

/-- Write a sibling with extension `tmp`, then rename it over the target. -/
def atomicWrite (t : LineTree) (path : Path) (content : List Line) : Outcome LineTree Unit :=
  let tmpPath := path.withExtension "tmp"
  match t.writeFile tmpPath content with
  | .error e => (t, .error (.io e))
  | .ok written =>
    match written.rename tmpPath path with
    | .error e => (written, .error (.io e))
    | .ok renamed => (renamed, .ok ())

/-- Run `write` in the directory `dir`, which is created first. -/
def inDir (b : JsonlBackend) (dir : Path) (write : LineTree → Outcome LineTree Unit) :
    Outcome JsonlBackend Unit :=
  match b.tree.createDirAll dir with
  | .error e => (b, .error (.io e))
  | .ok t => ({ b with tree := (write t).1 }, (write t).2)

/-- `JsonlBackend::open`. -/
def openAt (tree : LineTree) (root : Path) : Except PersistenceError JsonlBackend :=
  match tree.createDirAll (sessionsDir root) with
  | .error e => .error (.io e)
  | .ok t => .ok ⟨root, t⟩

/-- The directory a record's metadata is written to. -/
def recordDir (root : Path) (record : SessionRecord) : Path :=
  match record.username with
  | some username => userSessionDir root username record.sessionId
  | none => sessionDir root record.sessionId

def saveSessionMeta (b : JsonlBackend) (record : SessionRecord) : Outcome JsonlBackend Unit :=
  let dir := recordDir b.root record
  b.inDir dir fun t => atomicWrite t (metaPath dir) [.session record]

def loadSessionMeta (b : JsonlBackend) (sessionId : String) :
    Except PersistenceError (Option SessionRecord) := do
  let path := metaPath (sessionDir b.root sessionId)
  if b.tree.pathExists path then
    let content ← liftIo (b.tree.readFile path)
    let record ← decodeWhole Line.asSession content
    return some record
  else return none

/-- The records found below the entry `name` of the sessions directory: that
session itself, or what the name's subdirectories are called. -/
def recordsBelow (b : JsonlBackend) (name : String) :
    Except PersistenceError (List SessionRecord) := do
  let path := sessionsDir b.root ++ [name]
  if b.tree.pathExists (metaPath path) then
    return (← b.loadSessionMeta name).toList
  else
    let sids := (b.tree.readDir path).filter fun sid => b.tree.get (path ++ [sid]) = some .dir
    let found ← sids.mapM fun sid => b.loadSessionMeta sid
    return found.flatMap Option.toList

def listSessions (b : JsonlBackend) : Except PersistenceError (List SessionRecord) := do
  let dir := sessionsDir b.root
  if b.tree.pathExists dir then
    let names := (b.tree.readDir dir).filter fun name => b.tree.get (dir ++ [name]) = some .dir
    let results ← names.mapM b.recordsBelow
    return sortByKey SessionRecord.createdAtMs results.flatten
  else return []

def deleteSession (b : JsonlBackend) (sessionId : String) : Outcome JsonlBackend Bool :=
  let dir := sessionDir b.root sessionId
  if b.tree.pathExists dir then
    match b.tree.removeDirAll dir with
    | .ok t => ({ b with tree := t }, .ok true)
    | .error e => (b, .error (.io e))
  else (b, .ok false)

def appendMessage (b : JsonlBackend) (msg : MessageRecord) : Outcome JsonlBackend Unit :=
  let dir := sessionDir b.root msg.sessionId
  match b.inDir dir fun t => appendJsonlLine t (messagesPath dir) (.message msg) with
  | (b', .error e) => (b', .error e)
  | (b', .ok ()) =>
    match b'.loadSessionMeta msg.sessionId with
    | .ok (some record) =>
      let (t, result) := atomicWrite b'.tree (metaPath dir)
        [.session { record with updatedAtMs := msg.timestampMs }]
      ({ b' with tree := t }, result)
    | _ => (b', .ok ())

def loadMessages (b : JsonlBackend) (sessionId : String) :
    Except PersistenceError (List MessageRecord) := do
  let lines ← readJsonlLines b.tree (messagesPath (sessionDir b.root sessionId))
  lines.mapM Line.asMessage

def loadMessagesFromStep (b : JsonlBackend) (sessionId : String) (stepIndex : Nat) :
    Except PersistenceError (List MessageRecord) := do
  let all ← b.loadMessages sessionId
  return all.filter fun m => stepIndex ≤ m.stepIndex

def messageCount (b : JsonlBackend) (sessionId : String) : Except PersistenceError Nat := do
  let lines ← readJsonlLines b.tree (messagesPath (sessionDir b.root sessionId))
  return lines.length

def saveCheckpoint (b : JsonlBackend) (checkpoint : Checkpoint) : Outcome JsonlBackend Unit :=
  let dir := sessionDir b.root checkpoint.sessionId
  b.inDir dir fun t => appendJsonlLine t (checkpointsPath dir) (.checkpoint checkpoint)

def listCheckpoints (b : JsonlBackend) (sessionId : String) :
    Except PersistenceError (List Checkpoint) := do
  let lines ← readJsonlLines b.tree (checkpointsPath (sessionDir b.root sessionId))
  lines.mapM Line.asCheckpoint

def loadLatestCheckpoint (b : JsonlBackend) (sessionId : String) :
    Except PersistenceError (Option Checkpoint) := do
  let checkpoints ← b.listCheckpoints sessionId
  return checkpoints.getLast?

def loadCheckpointAtStep (b : JsonlBackend) (sessionId : String) (stepIndex : Nat) :
    Except PersistenceError (Option Checkpoint) := do
  let checkpoints ← b.listCheckpoints sessionId
  return checkpoints.find? fun c => c.stepIndex = stepIndex

def deleteCheckpoints (b : JsonlBackend) (sessionId : String) : Outcome JsonlBackend Unit :=
  let path := checkpointsPath (sessionDir b.root sessionId)
  if b.tree.pathExists path then
    match b.tree.removeFile path with
    | .ok t => ({ b with tree := t }, .ok ())
    | .error e => (b, .error (.io e))
  else (b, .ok ())

def savePromptHistory (b : JsonlBackend) (record : PromptHistoryRecord) :
    Outcome JsonlBackend Unit :=
  let dir := sessionDir b.root record.sessionId
  b.inDir dir fun t => appendJsonlLine t (promptHistoryPath dir) (.prompt record)

def loadPromptHistory (b : JsonlBackend) (sessionId : String) :
    Except PersistenceError (List PromptHistoryRecord) := do
  let lines ← readJsonlLines b.tree (promptHistoryPath (sessionDir b.root sessionId))
  lines.mapM Line.asPrompt

def saveCompaction (b : JsonlBackend) (record : CompactionRecord) : Outcome JsonlBackend Unit :=
  let dir := sessionDir b.root record.sessionId
  b.inDir dir fun t => atomicWrite t (compactionPath dir) [.compaction record]

def loadCompaction (b : JsonlBackend) (sessionId : String) :
    Except PersistenceError (Option CompactionRecord) := do
  let path := compactionPath (sessionDir b.root sessionId)
  if b.tree.pathExists path then
    let content ← liftIo (b.tree.readFile path)
    let record ← decodeWhole Line.asCompaction content
    return some record
  else return none

theorem withExtension_metaPath (dir : Path) :
    (metaPath dir).withExtension "tmp" = dir ++ ["meta.tmp"] := by
  have hstem : Path.stem "meta.json" ++ "." ++ "tmp" = "meta.tmp" := by decide
  simp [metaPath, Path.withExtension, hstem]

theorem get_atomicWrite (t : LineTree) (path : Path) (content : List Line) {q : Path}
    (hpath : q ≠ path) (htmp : q ≠ path.withExtension "tmp") :
    (atomicWrite t path content).1.get q = t.get q := by
  unfold atomicWrite
  dsimp only
  split
  · rfl
  · rename_i written hwrite
    have hwritten : written.get q = t.get q := by
      rw [FileTree.get_of_writeFile hwrite, if_neg htmp]
    split
    · exact hwritten
    · rename_i renamed hrename
      obtain ⟨data, -, hget⟩ := FileTree.get_of_rename hrename
      simp [hget, hpath, htmp, hwritten]

theorem get_saveSessionMeta (b : JsonlBackend) (r : SessionRecord) {t : LineTree}
    (hdir : b.tree.createDirAll (recordDir b.root r) = .ok t) {q : Path}
    (hmeta : q ≠ metaPath (recordDir b.root r))
    (htmp : q ≠ recordDir b.root r ++ ["meta.tmp"]) :
    (b.saveSessionMeta r).1.tree.get q =
      if q <+: recordDir b.root r then some .dir else b.tree.get q := by
  have hsave : (b.saveSessionMeta r).1.tree =
      (atomicWrite t (metaPath (recordDir b.root r)) [.session r]).1 := by
    simp [saveSessionMeta, inDir, hdir]
  rw [hsave, get_atomicWrite t _ _ hmeta (by rwa [withExtension_metaPath]),
    FileTree.get_of_createDirAll hdir]

@[simp] theorem saveSessionMeta_root (b : JsonlBackend) (r : SessionRecord) :
    (b.saveSessionMeta r).1.root = b.root := by
  simp only [saveSessionMeta, inDir]
  split <;> rfl

theorem saveSessionMeta_of_blocked (b : JsonlBackend) (r : SessionRecord) {e : IoError}
    (hdir : b.tree.createDirAll (recordDir b.root r) = .error e) :
    (b.saveSessionMeta r).1 = b := by
  simp [saveSessionMeta, inDir, hdir]

end JsonlBackend

end DbClinic.Persistence
