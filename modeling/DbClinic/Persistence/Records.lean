import Mathlib.Data.List.Sort
import DbClinic.Lib.FileTree

/-!
The records a session backend stores, its errors, and the two library
functions the backends share. Numbers are the unsigned ones of the source;
where a backend restricts their range, its own module says so. The texts of
input-output and SQLite errors come from outside the repository and are
represented by their cause.
-/

namespace DbClinic.Persistence

structure Checkpoint where
  checkpointId : String
  sessionId : String
  stepIndex : Nat
  timestampMs : Nat
  messageCount : Nat
  summary : Option String
  deriving DecidableEq

structure SessionRecord where
  sessionId : String
  createdAtMs : Nat
  updatedAtMs : Nat
  model : Option String
  workspaceRoot : Option String
  forkParentId : Option String
  forkBranchName : Option String
  username : Option String
  deriving DecidableEq

structure MessageRecord where
  sessionId : String
  role : String
  contentJson : String
  timestampMs : Nat
  stepIndex : Nat
  usageJson : Option String
  deriving DecidableEq

structure PromptHistoryRecord where
  sessionId : String
  timestampMs : Nat
  text : String
  deriving DecidableEq

structure CompactionRecord where
  sessionId : String
  count : Nat
  removedMessageCount : Nat
  summary : String
  timestampMs : Nat
  deriving DecidableEq

inductive SqliteCause where
  | integerOutOfRange
  | foreignKeyViolation
  deriving DecidableEq

inductive PersistenceError where
  | io (error : IoError)
  | json
  | sqlite (cause : SqliteCause)
  deriving DecidableEq

/-- A fallible call: its result, and the store after it. A call that fails
part way keeps what it had already done. -/
abbrev Outcome (σ α : Type) := σ × Except PersistenceError α

/-- `sort_by_key`, and SQLite's `ORDER BY key ASC`: a stable sort. -/
def sortByKey {α : Type*} (key : α → Nat) (items : List α) : List α :=
  items.insertionSort fun a b => key a ≤ key b

theorem sortByKey_perm {α : Type*} (key : α → Nat) (items : List α) :
    (sortByKey key items).Perm items :=
  List.perm_insertionSort _ items

end DbClinic.Persistence
