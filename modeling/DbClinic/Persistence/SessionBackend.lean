import DbClinic.Persistence.JsonlBackend
import DbClinic.Persistence.Records
import DbClinic.Persistence.SqliteBackend

/-!
The in-memory backend: five hash maps behind one mutex. The mutex is never
poisoned, because no code panics while holding it, so every call succeeds.
The trait `SessionBackend` as the sum of its three implementations, which is
what a `Box<dyn SessionBackend>` of `open_backend` can hold, and histories of
calls on it.
-/

namespace DbClinic.Persistence

/-- The struct `Inner` of the memory backend. -/
structure MemoryBackend where
  sessions : KeyMap String SessionRecord
  messages : KeyMap String (List MessageRecord)
  checkpoints : KeyMap String (List Checkpoint)
  promptHistory : KeyMap String (List PromptHistoryRecord)
  compaction : KeyMap String CompactionRecord

namespace MemoryBackend

def new : MemoryBackend := ⟨.empty, .empty, .empty, .empty, .empty⟩

/-- `entry(key).or_default().push(item)`. -/
def pushEntry {α : Type} (map : KeyMap String (List α)) (key : String) (item : α) :
    KeyMap String (List α) :=
  map.insert key ((map.get key).getD [] ++ [item])

def saveSessionMeta (b : MemoryBackend) (record : SessionRecord) : Outcome MemoryBackend Unit :=
  ({ b with sessions := b.sessions.insert record.sessionId record }, .ok ())

def loadSessionMeta (b : MemoryBackend) (sessionId : String) :
    Except PersistenceError (Option SessionRecord) :=
  .ok (b.sessions.get sessionId)

def listSessions (b : MemoryBackend) : Except PersistenceError (List SessionRecord) :=
  .ok (sortByKey SessionRecord.createdAtMs b.sessions.values)

def deleteSession (b : MemoryBackend) (sessionId : String) : Outcome MemoryBackend Bool :=
  ({ b with sessions := b.sessions.erase sessionId }, .ok (b.sessions.get sessionId).isSome)

def appendMessage (b : MemoryBackend) (msg : MessageRecord) : Outcome MemoryBackend Unit :=
  ({ b with messages := pushEntry b.messages msg.sessionId msg }, .ok ())

def loadMessages (b : MemoryBackend) (sessionId : String) :
    Except PersistenceError (List MessageRecord) :=
  .ok ((b.messages.get sessionId).getD [])

def loadMessagesFromStep (b : MemoryBackend) (sessionId : String) (stepIndex : Nat) :
    Except PersistenceError (List MessageRecord) := do
  let all ← b.loadMessages sessionId
  return all.filter fun m => stepIndex ≤ m.stepIndex

def messageCount (b : MemoryBackend) (sessionId : String) : Except PersistenceError Nat :=
  .ok (((b.messages.get sessionId).map List.length).getD 0)

def saveCheckpoint (b : MemoryBackend) (checkpoint : Checkpoint) : Outcome MemoryBackend Unit :=
  ({ b with checkpoints := pushEntry b.checkpoints checkpoint.sessionId checkpoint }, .ok ())

def listCheckpoints (b : MemoryBackend) (sessionId : String) :
    Except PersistenceError (List Checkpoint) :=
  .ok ((b.checkpoints.get sessionId).getD [])

def loadLatestCheckpoint (b : MemoryBackend) (sessionId : String) :
    Except PersistenceError (Option Checkpoint) :=
  .ok ((b.checkpoints.get sessionId).bind List.getLast?)

def loadCheckpointAtStep (b : MemoryBackend) (sessionId : String) (stepIndex : Nat) :
    Except PersistenceError (Option Checkpoint) :=
  .ok ((b.checkpoints.get sessionId).bind fun v => v.find? fun c => c.stepIndex = stepIndex)

def deleteCheckpoints (b : MemoryBackend) (sessionId : String) : Outcome MemoryBackend Unit :=
  ({ b with checkpoints := b.checkpoints.erase sessionId }, .ok ())

def savePromptHistory (b : MemoryBackend) (record : PromptHistoryRecord) :
    Outcome MemoryBackend Unit :=
  ({ b with promptHistory := pushEntry b.promptHistory record.sessionId record }, .ok ())

def loadPromptHistory (b : MemoryBackend) (sessionId : String) :
    Except PersistenceError (List PromptHistoryRecord) :=
  .ok ((b.promptHistory.get sessionId).getD [])

def saveCompaction (b : MemoryBackend) (record : CompactionRecord) :
    Outcome MemoryBackend Unit :=
  ({ b with compaction := b.compaction.insert record.sessionId record }, .ok ())

def loadCompaction (b : MemoryBackend) (sessionId : String) :
    Except PersistenceError (Option CompactionRecord) :=
  .ok (b.compaction.get sessionId)

end MemoryBackend

inductive SessionBackend where
  | memory (inner : MemoryBackend)
  | jsonl (inner : JsonlBackend)
  | sqlite (inner : SqliteBackend)

namespace SessionBackend

/-- Run a writing call of the implementation and wrap its store again. -/
def onStore {σ α : Type} (wrap : σ → SessionBackend) (outcome : Outcome σ α) :
    Outcome SessionBackend α :=
  (wrap outcome.1, outcome.2)

def saveSessionMeta (b : SessionBackend) (record : SessionRecord) :
    Outcome SessionBackend Unit :=
  match b with
  | memory m => onStore memory (m.saveSessionMeta record)
  | jsonl j => onStore jsonl (j.saveSessionMeta record)
  | sqlite s => onStore sqlite (s.saveSessionMeta record)

def loadSessionMeta (b : SessionBackend) (sessionId : String) :
    Except PersistenceError (Option SessionRecord) :=
  match b with
  | memory m => m.loadSessionMeta sessionId
  | jsonl j => j.loadSessionMeta sessionId
  | sqlite s => s.loadSessionMeta sessionId

def listSessions : SessionBackend → Except PersistenceError (List SessionRecord)
  | memory m => m.listSessions
  | jsonl j => j.listSessions
  | sqlite s => s.listSessions

def deleteSession (b : SessionBackend) (sessionId : String) : Outcome SessionBackend Bool :=
  match b with
  | memory m => onStore memory (m.deleteSession sessionId)
  | jsonl j => onStore jsonl (j.deleteSession sessionId)
  | sqlite s => onStore sqlite (s.deleteSession sessionId)

def appendMessage (b : SessionBackend) (msg : MessageRecord) : Outcome SessionBackend Unit :=
  match b with
  | memory m => onStore memory (m.appendMessage msg)
  | jsonl j => onStore jsonl (j.appendMessage msg)
  | sqlite s => onStore sqlite (s.appendMessage msg)

def loadMessages (b : SessionBackend) (sessionId : String) :
    Except PersistenceError (List MessageRecord) :=
  match b with
  | memory m => m.loadMessages sessionId
  | jsonl j => j.loadMessages sessionId
  | sqlite s => s.loadMessages sessionId

def loadMessagesFromStep (b : SessionBackend) (sessionId : String) (stepIndex : Nat) :
    Except PersistenceError (List MessageRecord) :=
  match b with
  | memory m => m.loadMessagesFromStep sessionId stepIndex
  | jsonl j => j.loadMessagesFromStep sessionId stepIndex
  | sqlite s => s.loadMessagesFromStep sessionId stepIndex

def messageCount (b : SessionBackend) (sessionId : String) : Except PersistenceError Nat :=
  match b with
  | memory m => m.messageCount sessionId
  | jsonl j => j.messageCount sessionId
  | sqlite s => s.messageCount sessionId

def saveCheckpoint (b : SessionBackend) (checkpoint : Checkpoint) :
    Outcome SessionBackend Unit :=
  match b with
  | memory m => onStore memory (m.saveCheckpoint checkpoint)
  | jsonl j => onStore jsonl (j.saveCheckpoint checkpoint)
  | sqlite s => onStore sqlite (s.saveCheckpoint checkpoint)

def loadLatestCheckpoint (b : SessionBackend) (sessionId : String) :
    Except PersistenceError (Option Checkpoint) :=
  match b with
  | memory m => m.loadLatestCheckpoint sessionId
  | jsonl j => j.loadLatestCheckpoint sessionId
  | sqlite s => s.loadLatestCheckpoint sessionId

def loadCheckpointAtStep (b : SessionBackend) (sessionId : String) (stepIndex : Nat) :
    Except PersistenceError (Option Checkpoint) :=
  match b with
  | memory m => m.loadCheckpointAtStep sessionId stepIndex
  | jsonl j => j.loadCheckpointAtStep sessionId stepIndex
  | sqlite s => s.loadCheckpointAtStep sessionId stepIndex

def listCheckpoints (b : SessionBackend) (sessionId : String) :
    Except PersistenceError (List Checkpoint) :=
  match b with
  | memory m => m.listCheckpoints sessionId
  | jsonl j => j.listCheckpoints sessionId
  | sqlite s => s.listCheckpoints sessionId

def deleteCheckpoints (b : SessionBackend) (sessionId : String) : Outcome SessionBackend Unit :=
  match b with
  | memory m => onStore memory (m.deleteCheckpoints sessionId)
  | jsonl j => onStore jsonl (j.deleteCheckpoints sessionId)
  | sqlite s => onStore sqlite (s.deleteCheckpoints sessionId)

def savePromptHistory (b : SessionBackend) (record : PromptHistoryRecord) :
    Outcome SessionBackend Unit :=
  match b with
  | memory m => onStore memory (m.savePromptHistory record)
  | jsonl j => onStore jsonl (j.savePromptHistory record)
  | sqlite s => onStore sqlite (s.savePromptHistory record)

def loadPromptHistory (b : SessionBackend) (sessionId : String) :
    Except PersistenceError (List PromptHistoryRecord) :=
  match b with
  | memory m => m.loadPromptHistory sessionId
  | jsonl j => j.loadPromptHistory sessionId
  | sqlite s => s.loadPromptHistory sessionId

def saveCompaction (b : SessionBackend) (record : CompactionRecord) :
    Outcome SessionBackend Unit :=
  match b with
  | memory m => onStore memory (m.saveCompaction record)
  | jsonl j => onStore jsonl (j.saveCompaction record)
  | sqlite s => onStore sqlite (s.saveCompaction record)

def loadCompaction (b : SessionBackend) (sessionId : String) :
    Except PersistenceError (Option CompactionRecord) :=
  match b with
  | memory m => m.loadCompaction sessionId
  | jsonl j => j.loadCompaction sessionId
  | sqlite s => s.loadCompaction sessionId

/-- A writing call of the trait. -/
inductive Call where
  | saveSessionMeta (record : SessionRecord)
  | appendMessage (msg : MessageRecord)
  | saveCheckpoint (checkpoint : Checkpoint)
  | savePromptHistory (record : PromptHistoryRecord)
  | saveCompaction (record : CompactionRecord)
  | deleteSession (sessionId : String)
  | deleteCheckpoints (sessionId : String)

/-- The store after a call, whatever the call returned. -/
def call (b : SessionBackend) : Call → SessionBackend
  | .saveSessionMeta record => (b.saveSessionMeta record).1
  | .appendMessage msg => (b.appendMessage msg).1
  | .saveCheckpoint checkpoint => (b.saveCheckpoint checkpoint).1
  | .savePromptHistory record => (b.savePromptHistory record).1
  | .saveCompaction record => (b.saveCompaction record).1
  | .deleteSession sessionId => (b.deleteSession sessionId).1
  | .deleteCheckpoints sessionId => (b.deleteCheckpoints sessionId).1

/-- A backend as `open_backend` returns it: an empty memory or database, or the
JSONL backend on any file tree in which its directory can be made. -/
inductive Opened : SessionBackend → Prop where
  | memory : Opened (memory .new)
  | jsonl (tree : LineTree) (root : Path) (b : JsonlBackend) :
      JsonlBackend.openAt tree root = .ok b → Opened (jsonl b)
  | sqlite : Opened (sqlite .new)

/-- The stores any sequence of calls leads to. -/
inductive Reachable : SessionBackend → Prop where
  | opened {b : SessionBackend} : Opened b → Reachable b
  | call {b : SessionBackend} (c : Call) : Reachable b → Reachable (b.call c)

end SessionBackend

end DbClinic.Persistence
