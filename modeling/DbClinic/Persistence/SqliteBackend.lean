import DbClinic.Persistence.Records

/-!
The SQLite backend: the five tables of its schema and the statements run on
them. Of SQLite the model uses what its documentation says with
`PRAGMA foreign_keys=ON`: a row whose parent is missing is refused,
`INSERT OR REPLACE` deletes the rows that conflict before it inserts, and
deleting a `session_meta` row, by `REPLACE` as well as by `DELETE`, deletes the
rows that refer to it `ON DELETE CASCADE`. A bound integer is refused when it
does not fit the 64-bit signed column.
-/

namespace DbClinic.Persistence

/-- A table with an `AUTOINCREMENT` key: its rows in the order of their ids. -/
structure Table (α : Type) where
  rows : List (Nat × α)
  lastId : Nat
  deriving DecidableEq

namespace Table

variable {α : Type}

def empty : Table α := ⟨[], 0⟩

def insert (t : Table α) (row : α) : Table α := ⟨t.rows ++ [(t.lastId + 1, row)], t.lastId + 1⟩

def deleteWhere (t : Table α) (p : α → Bool) : Table α :=
  { t with rows := t.rows.filter fun r => !p r.2 }

def select (t : Table α) (p : α → Bool) : List α := (t.rows.map Prod.snd).filter p

@[simp] theorem select_deleteWhere (t : Table α) (p q : α → Bool) :
    (t.deleteWhere p).select q = t.select fun a => !p a && q a := by
  simp [select, deleteWhere, List.filter_map, List.filter_filter, Function.comp_def,
    Bool.and_comm]

@[simp] theorem select_insert (t : Table α) (row : α) (q : α → Bool) :
    (t.insert row).select q = t.select q ++ if q row then [row] else [] := by
  by_cases h : q row <;> simp [select, insert, List.filter_append, h]

end Table

/-- Binding an unsigned integer to a signed 64-bit column. -/
def fitsColumn (n : Nat) : Bool := n < 2 ^ 63

structure SqliteBackend where
  sessionMeta : KeyMap String SessionRecord
  messages : Table MessageRecord
  checkpoints : Table Checkpoint
  promptHistory : Table PromptHistoryRecord
  compaction : KeyMap String CompactionRecord

namespace SqliteBackend

/-- The database after `CREATE TABLE IF NOT EXISTS`. -/
def new : SqliteBackend := ⟨.empty, .empty, .empty, .empty, .empty⟩

def insertChild (b : SqliteBackend) (numbers : List Nat) (sessionId : String)
    (run : SqliteBackend → SqliteBackend) : Outcome SqliteBackend Unit :=
  if numbers.all fitsColumn = false then (b, .error (.sqlite .integerOutOfRange))
  else if (b.sessionMeta.get sessionId).isNone then
    (b, .error (.sqlite .foreignKeyViolation))
  else (run b, .ok ())

/-- `ON DELETE CASCADE`, for the four tables that refer to `session_meta`. -/
def cascade (b : SqliteBackend) (sessionId : String) : SqliteBackend :=
  { b with
    messages := b.messages.deleteWhere fun m => m.sessionId = sessionId
    checkpoints := b.checkpoints.deleteWhere fun c => c.sessionId = sessionId
    promptHistory := b.promptHistory.deleteWhere fun p => p.sessionId = sessionId
    compaction := b.compaction.erase sessionId }

/-- Delete the `session_meta` row of a session, if there is one. -/
def deleteMetaRow (b : SqliteBackend) (sessionId : String) : SqliteBackend :=
  match b.sessionMeta.get sessionId with
  | some _ => { b.cascade sessionId with sessionMeta := b.sessionMeta.erase sessionId }
  | none => b

/-- `INSERT OR REPLACE INTO session_meta`. -/
def saveSessionMeta (b : SqliteBackend) (record : SessionRecord) : Outcome SqliteBackend Unit :=
  if [record.createdAtMs, record.updatedAtMs].all fitsColumn = false then
    (b, .error (.sqlite .integerOutOfRange))
  else
    let replaced := b.deleteMetaRow record.sessionId
    ({ replaced with sessionMeta := replaced.sessionMeta.insert record.sessionId record }, .ok ())

def loadSessionMeta (b : SqliteBackend) (sessionId : String) :
    Except PersistenceError (Option SessionRecord) :=
  .ok (b.sessionMeta.get sessionId)

/-- `ORDER BY created_at_ms ASC`. -/
def listSessions (b : SqliteBackend) : Except PersistenceError (List SessionRecord) :=
  .ok (sortByKey SessionRecord.createdAtMs b.sessionMeta.values)

/-- `DELETE FROM session_meta WHERE session_id = ?1`. -/
def deleteSession (b : SqliteBackend) (sessionId : String) : Outcome SqliteBackend Bool :=
  (b.deleteMetaRow sessionId, .ok (b.sessionMeta.get sessionId).isSome)

/-- `UPDATE session_meta SET updated_at_ms = ?1 WHERE session_id = ?2`. -/
def touchMeta (b : SqliteBackend) (sessionId : String) (timestampMs : Nat) : SqliteBackend :=
  match b.sessionMeta.get sessionId with
  | some record =>
    { b with sessionMeta := b.sessionMeta.insert sessionId
               { record with updatedAtMs := timestampMs } }
  | none => b

def appendMessage (b : SqliteBackend) (msg : MessageRecord) : Outcome SqliteBackend Unit :=
  b.insertChild [msg.timestampMs, msg.stepIndex] msg.sessionId fun b =>
    { b with messages := b.messages.insert msg }.touchMeta msg.sessionId msg.timestampMs

/-- `ORDER BY step_index ASC, id ASC`. -/
def loadMessages (b : SqliteBackend) (sessionId : String) :
    Except PersistenceError (List MessageRecord) :=
  .ok (sortByKey MessageRecord.stepIndex (b.messages.select fun m => m.sessionId = sessionId))

def loadMessagesFromStep (b : SqliteBackend) (sessionId : String) (stepIndex : Nat) :
    Except PersistenceError (List MessageRecord) :=
  if fitsColumn stepIndex then
    .ok (sortByKey MessageRecord.stepIndex
      (b.messages.select fun m => m.sessionId = sessionId && stepIndex ≤ m.stepIndex))
  else .error (.sqlite .integerOutOfRange)

/-- `SELECT COUNT(*)`. -/
def messageCount (b : SqliteBackend) (sessionId : String) : Except PersistenceError Nat :=
  .ok (b.messages.select fun m => m.sessionId = sessionId).length

/-- `INSERT OR REPLACE INTO checkpoints`, unique in `(session_id, step_index)`. -/
def saveCheckpoint (b : SqliteBackend) (checkpoint : Checkpoint) : Outcome SqliteBackend Unit :=
  b.insertChild [checkpoint.stepIndex, checkpoint.timestampMs, checkpoint.messageCount]
    checkpoint.sessionId fun b =>
      let conflicts := fun c : Checkpoint =>
        c.sessionId = checkpoint.sessionId && c.stepIndex = checkpoint.stepIndex
      { b with checkpoints := (b.checkpoints.deleteWhere conflicts).insert checkpoint }

/-- `ORDER BY step_index ASC`. -/
def listCheckpoints (b : SqliteBackend) (sessionId : String) :
    Except PersistenceError (List Checkpoint) :=
  .ok (sortByKey Checkpoint.stepIndex (b.checkpoints.select fun c => c.sessionId = sessionId))

/-- `ORDER BY step_index DESC LIMIT 1`; step indices of a session are unique. -/
def loadLatestCheckpoint (b : SqliteBackend) (sessionId : String) :
    Except PersistenceError (Option Checkpoint) := do
  return (← b.listCheckpoints sessionId).getLast?

def loadCheckpointAtStep (b : SqliteBackend) (sessionId : String) (stepIndex : Nat) :
    Except PersistenceError (Option Checkpoint) :=
  if fitsColumn stepIndex then
    .ok (b.checkpoints.select fun c => c.sessionId = sessionId && c.stepIndex = stepIndex).head?
  else .error (.sqlite .integerOutOfRange)

def deleteCheckpoints (b : SqliteBackend) (sessionId : String) : Outcome SqliteBackend Unit :=
  ({ b with checkpoints := b.checkpoints.deleteWhere fun c => c.sessionId = sessionId }, .ok ())

def savePromptHistory (b : SqliteBackend) (record : PromptHistoryRecord) :
    Outcome SqliteBackend Unit :=
  b.insertChild [record.timestampMs] record.sessionId fun b =>
    { b with promptHistory := b.promptHistory.insert record }

/-- `ORDER BY timestamp_ms ASC`. -/
def loadPromptHistory (b : SqliteBackend) (sessionId : String) :
    Except PersistenceError (List PromptHistoryRecord) :=
  .ok (sortByKey PromptHistoryRecord.timestampMs
    (b.promptHistory.select fun p => p.sessionId = sessionId))

/-- `INSERT OR REPLACE INTO compaction`. -/
def saveCompaction (b : SqliteBackend) (record : CompactionRecord) :
    Outcome SqliteBackend Unit :=
  b.insertChild [record.removedMessageCount, record.timestampMs] record.sessionId fun b =>
    { b with compaction := b.compaction.insert record.sessionId record }

def loadCompaction (b : SqliteBackend) (sessionId : String) :
    Except PersistenceError (Option CompactionRecord) :=
  .ok (b.compaction.get sessionId)

end SqliteBackend

end DbClinic.Persistence
