import DbClinic.Lib.FileTree
import DbClinic.Runtime.Json

/-!
Sessions and their codec: the JSONL records a session file consists of, the
older form of one JSON object, and the decoders with their error texts. The
clock and the id counter of the process are read through the values they
return, which a caller passes in. A path is text that is valid Unicode.
-/

namespace DbClinic.Runtime

inductive MessageRole where
  | system
  | user
  | assistant
  | tool
  deriving DecidableEq

structure TokenUsage where
  inputTokens : Nat
  outputTokens : Nat
  cacheCreationInputTokens : Nat
  cacheReadInputTokens : Nat
  deriving DecidableEq

inductive ContentBlock where
  | text (text : String)
  | thinking (thinking : String) (signature : Option String)
  | toolUse (id name input : String)
  | toolResult (toolUseId toolName output : String) (isError : Bool)
  deriving DecidableEq

structure ConversationMessage where
  role : MessageRole
  blocks : List ContentBlock
  usage : Option TokenUsage
  deriving DecidableEq

structure SessionCompaction where
  count : Nat
  removedMessageCount : Nat
  summary : String
  deriving DecidableEq

structure SessionFork where
  parentSessionId : String
  branchName : Option String
  deriving DecidableEq

structure SessionPromptEntry where
  timestampMs : Nat
  text : String
  deriving DecidableEq

structure Session where
  version : Nat
  sessionId : String
  createdAtMs : Nat
  updatedAtMs : Nat
  messages : List ConversationMessage
  compaction : Option SessionCompaction
  fork : Option SessionFork
  workspaceRoot : Option String
  promptHistory : List SessionPromptEntry
  lastHealthCheckMs : Option Nat
  model : Option String
  persistencePath : Option Path
  deriving DecidableEq

inductive SessionError where
  | io (error : IoError)
  | json (error : JsonError)
  | format (message : String)
  deriving DecidableEq

/-- What one use of the process-wide clock and id counter returns. -/
structure Stamp where
  millis : Nat
  counter : Nat
  deriving DecidableEq

def SESSION_VERSION : Nat := 1

def generateSessionId (stamp : Stamp) : String :=
  "session-" ++ toString stamp.millis ++ "-" ++ toString stamp.counter

namespace ConversationMessage

def userText (text : String) : ConversationMessage := ⟨.user, [.text text], none⟩

def toolResult (toolUseId toolName output : String) (isError : Bool) : ConversationMessage :=
  ⟨.tool, [.toolResult toolUseId toolName output isError], none⟩

end ConversationMessage

/-- `Session::new`. -/
def Session.new (now : Nat) (stamp : Stamp) : Session where
  version := SESSION_VERSION
  sessionId := generateSessionId stamp
  createdAtMs := now
  updatedAtMs := now
  messages := []
  compaction := none
  fork := none
  workspaceRoot := none
  promptHistory := []
  lastHealthCheckMs := none
  model := none
  persistencePath := none

section Readers

variable (object : List (String × JsonValue)) (key : String)

def missing {α : Type} : Except SessionError α := .error (.format ("missing " ++ key))

def outOfRange {α : Type} : Except SessionError α := .error (.format (key ++ " out of range"))

def optionalString : Option String := (getEntry object key).bind JsonValue.asStr

def requiredString : Except SessionError String :=
  match (getEntry object key).bind JsonValue.asStr with
  | some value => .ok value
  | none => missing key

/-- `required_u32`, `required_usize` and `required_u64`: an integer below a
power of two. -/
def requiredBelow (bits : Nat) : Except SessionError Nat :=
  match (getEntry object key).bind JsonValue.asI64 with
  | some value => if 0 ≤ value ∧ value < 2 ^ bits then .ok value.toNat else outOfRange key
  | none => missing key

def requiredU32 : Except SessionError Nat := requiredBelow object key 32

def requiredU64 : Except SessionError Nat := requiredBelow object key 64

def requiredUsize : Except SessionError Nat := requiredBelow object key 64

/-- A decoder applied to a field that may be absent. -/
def optionalWith {α : Type} (decode : JsonValue → Except SessionError α) :
    Except SessionError (Option α) :=
  match getEntry object key with
  | some value => (decode value).map some
  | none => .ok none

end Readers

def requiredU64FromValue (value : JsonValue) (key : String) : Except SessionError Nat :=
  match value.asI64 with
  | some n => if 0 ≤ n ∧ n < 2 ^ 64 then .ok n.toNat else outOfRange key
  | none => missing key

def objectOr (value : JsonValue) (message : String) :
    Except SessionError (List (String × JsonValue)) :=
  match value.asObject with
  | some object => .ok object
  | none => .error (.format message)

/-- `i64_from_u64` and `i64_from_usize`. -/
def i64FromNat (value : Nat) (key : String) : Except SessionError JsonValue :=
  if value < 2 ^ 63 then .ok (.number value)
  else .error (.format (key ++ " out of range for JSON number"))

def strEntry (key value : String) : String × JsonValue := (key, .string value)

def optEntry {α : Type} (key : String) (encode : α → JsonValue) :
    Option α → List (String × JsonValue)
  | some value => [(key, encode value)]
  | none => []

def usageToJson (usage : TokenUsage) : JsonValue :=
  .object (entriesOf [("input_tokens", .number usage.inputTokens),
    ("output_tokens", .number usage.outputTokens),
    ("cache_creation_input_tokens", .number usage.cacheCreationInputTokens),
    ("cache_read_input_tokens", .number usage.cacheReadInputTokens)])

def usageFromJson (value : JsonValue) : Except SessionError TokenUsage := do
  let object ← objectOr value "usage must be an object"
  let inputTokens ← requiredU32 object "input_tokens"
  let outputTokens ← requiredU32 object "output_tokens"
  let cacheCreationInputTokens ← requiredU32 object "cache_creation_input_tokens"
  let cacheReadInputTokens ← requiredU32 object "cache_read_input_tokens"
  return ⟨inputTokens, outputTokens, cacheCreationInputTokens, cacheReadInputTokens⟩

namespace ContentBlock

def toJson : ContentBlock → JsonValue
  | text t => .object (entriesOf [strEntry "type" "text", strEntry "text" t])
  | thinking t signature =>
    .object (entriesOf ([strEntry "type" "thinking", strEntry "thinking" t] ++
      optEntry "signature" .string signature))
  | toolUse id name input =>
    .object (entriesOf [strEntry "type" "tool_use", strEntry "id" id, strEntry "name" name,
      strEntry "input" input])
  | toolResult toolUseId toolName output isError =>
    .object (entriesOf [strEntry "type" "tool_result", strEntry "tool_use_id" toolUseId,
      strEntry "tool_name" toolName, strEntry "output" output, ("is_error", .bool isError)])

def fromJson (value : JsonValue) : Except SessionError ContentBlock := do
  let object ← objectOr value "block must be an object"
  match optionalString object "type" with
  | none => .error (.format "missing block type")
  | some kind =>
    if kind = "text" then
      return .text (← requiredString object "text")
    else if kind = "thinking" then
      return .thinking (← requiredString object "thinking") (optionalString object "signature")
    else if kind = "tool_use" then
      return .toolUse (← requiredString object "id") (← requiredString object "name")
        (← requiredString object "input")
    else if kind = "tool_result" then
      let toolUseId ← requiredString object "tool_use_id"
      let toolName ← requiredString object "tool_name"
      let output ← requiredString object "output"
      match (getEntry object "is_error").bind JsonValue.asBool with
      | some isError => return .toolResult toolUseId toolName output isError
      | none => missing "is_error"
    else .error (.format ("unsupported block type: " ++ kind))

end ContentBlock

def MessageRole.render : MessageRole → String
  | system => "system"
  | user => "user"
  | assistant => "assistant"
  | tool => "tool"

def MessageRole.parse (text : String) : Except SessionError MessageRole :=
  if text = "system" then .ok .system
  else if text = "user" then .ok .user
  else if text = "assistant" then .ok .assistant
  else if text = "tool" then .ok .tool
  else .error (.format ("unsupported message role: " ++ text))

namespace ConversationMessage

def toJson (message : ConversationMessage) : JsonValue :=
  .object (entriesOf ([strEntry "role" message.role.render,
    ("blocks", .array (message.blocks.map ContentBlock.toJson))] ++
    optEntry "usage" usageToJson message.usage))

def fromJson (value : JsonValue) : Except SessionError ConversationMessage := do
  let object ← objectOr value "message must be an object"
  let role ← requiredString object "role" >>= MessageRole.parse
  match (getEntry object "blocks").bind JsonValue.asArray with
  | none => missing "blocks"
  | some values =>
    let blocks ← values.mapM ContentBlock.fromJson
    let usage ← optionalWith object "usage" usageFromJson
    return ⟨role, blocks, usage⟩

end ConversationMessage

namespace SessionCompaction

def entries (compaction : SessionCompaction) : Except SessionError (List (String × JsonValue)) := do
  let removed ← i64FromNat compaction.removedMessageCount "removed_message_count"
  return [("count", .number compaction.count), ("removed_message_count", removed),
    strEntry "summary" compaction.summary]

def toJson (compaction : SessionCompaction) : Except SessionError JsonValue := do
  return .object (entriesOf (← compaction.entries))

def toJsonlRecord (compaction : SessionCompaction) : Except SessionError JsonValue := do
  return .object (entriesOf (strEntry "type" "compaction" :: (← compaction.entries)))

def fromJson (value : JsonValue) : Except SessionError SessionCompaction := do
  let object ← objectOr value "compaction must be an object"
  let count ← requiredU32 object "count"
  let removedMessageCount ← requiredUsize object "removed_message_count"
  let summary ← requiredString object "summary"
  return ⟨count, removedMessageCount, summary⟩

end SessionCompaction

namespace SessionFork

def toJson (fork : SessionFork) : JsonValue :=
  .object (entriesOf (strEntry "parent_session_id" fork.parentSessionId ::
    optEntry "branch_name" .string fork.branchName))

def fromJson (value : JsonValue) : Except SessionError SessionFork := do
  let object ← objectOr value "fork metadata must be an object"
  let parentSessionId ← requiredString object "parent_session_id"
  return ⟨parentSessionId, optionalString object "branch_name"⟩

end SessionFork

namespace SessionPromptEntry

def toJsonlRecord (entry : SessionPromptEntry) : JsonValue :=
  .object (entriesOf [strEntry "type" "prompt_history",
    ("timestamp_ms", .number (min entry.timestampMs (2 ^ 63 - 1))), strEntry "text" entry.text])

def fromJsonOpt (value : JsonValue) : Option SessionPromptEntry := do
  let object ← value.asObject
  let timestampMs ← (getEntry object "timestamp_ms").bind JsonValue.asI64
  let text ← optionalString object "text"
  if 0 ≤ timestampMs then some ⟨timestampMs.toNat, text⟩ else none

end SessionPromptEntry

def messageRecord (message : ConversationMessage) : JsonValue :=
  .object (entriesOf [strEntry "type" "message", ("message", message.toJson)])

/-- `char::is_whitespace`: the Unicode property `White_Space`. -/
def isWhitespace (c : Char) : Bool :=
  let n := c.toNat
  (0x09 ≤ n && n ≤ 0x0d) || n = 0x20 || n = 0x85 || n = 0xa0 || n = 0x1680 ||
    (0x2000 ≤ n && n ≤ 0x200a) || n = 0x2028 || n = 0x2029 || n = 0x202f || n = 0x205f ||
    n = 0x3000

def trim (cs : List Char) : List Char :=
  ((cs.dropWhile isWhitespace).reverse.dropWhile isWhitespace).reverse

def splitLines {α : Type} (isBreak : α → Bool) (items : List α) : List (List α) :=
  let parts := items.splitOnP isBreak
  match parts.getLast? with
  | some [] => parts.dropLast
  | _ => parts

/-- `str::lines`. The carriage return before a break is whitespace that the
only caller trims. -/
def lines (cs : List Char) : List (List Char) := splitLines (· = '\n') cs

namespace Session

/-- `PartialEq::eq`. The model and the persistence path do not count. -/
def eq (session other : Session) : Prop :=
  session.version = other.version ∧ session.sessionId = other.sessionId ∧
    session.createdAtMs = other.createdAtMs ∧ session.updatedAtMs = other.updatedAtMs ∧
    session.messages = other.messages ∧ session.compaction = other.compaction ∧
    session.fork = other.fork ∧ session.workspaceRoot = other.workspaceRoot ∧
    session.promptHistory = other.promptHistory ∧
    session.lastHealthCheckMs = other.lastHealthCheckMs

instance (session other : Session) : Decidable (session.eq other) :=
  inferInstanceAs (Decidable (_ ∧ _))

def touch (session : Session) (now : Nat) : Session := { session with updatedAtMs := now }

/-- What one JSONL record adds to the session read so far. -/
structure Decoded where
  version : Nat
  sessionId : Option String
  createdAtMs : Option Nat
  updatedAtMs : Option Nat
  messages : List ConversationMessage
  compaction : Option SessionCompaction
  fork : Option SessionFork
  workspaceRoot : Option String
  model : Option String
  promptHistory : List SessionPromptEntry

def Decoded.start : Decoded :=
  ⟨SESSION_VERSION, none, none, none, [], none, none, none, none, []⟩

/-- `JSONL record at line <n> <problem>`. -/
def recordError {α : Type} (number : Nat) (problem : String) : Except SessionError α :=
  .error (.format ("JSONL record at line " ++ toString number ++ " " ++ problem))

/-- The body of the loop of `from_jsonl`, for a line that is not empty. -/
def decodeRecord (number : Nat) (line : List Char) (d : Decoded) :
    Except SessionError Decoded :=
  match JsonValue.parse line with
  | .error e =>
    .error (.format ("invalid JSONL record at line " ++ toString number ++ ": " ++ e.message))
  | .ok value =>
    match value.asObject with
    | none => recordError number "must be an object"
    | some object =>
      match optionalString object "type" with
      | none => recordError number "missing type"
      | some kind =>
        if kind = "session_meta" then do
          let version ← requiredU32 object "version"
          let sessionId ← requiredString object "session_id"
          let createdAtMs ← requiredU64 object "created_at_ms"
          let updatedAtMs ← requiredU64 object "updated_at_ms"
          let fork ← optionalWith object "fork" SessionFork.fromJson
          return { d with
            version, sessionId, createdAtMs, updatedAtMs, fork
            workspaceRoot := optionalString object "workspace_root"
            model := optionalString object "model" }
        else if kind = "message" then
          match getEntry object "message" with
          | none => recordError number "missing message"
          | some value => do
            let message ← ConversationMessage.fromJson value
            return { d with messages := d.messages ++ [message] }
        else if kind = "compaction" then do
          let compaction ← SessionCompaction.fromJson (.object object)
          return { d with compaction := some compaction }
        else if kind = "prompt_history" then
          match SessionPromptEntry.fromJsonOpt (.object object) with
          | some entry => .ok { d with promptHistory := d.promptHistory ++ [entry] }
          | none => .ok d
        else
          .error (.format ("unsupported JSONL record type at line " ++ toString number ++
            ": " ++ kind))

/-- The loop of `from_jsonl`, from line `number` on. -/
def decodeLines : (number : Nat) → List (List Char) → Decoded → Except SessionError Decoded
  | _, [], d => .ok d
  | number, rawLine :: rest, d =>
    let line := trim rawLine
    if line = [] then decodeLines (number + 1) rest d
    else
      match decodeRecord number line d with
      | .error e => .error e
      | .ok d' => decodeLines (number + 1) rest d'

def fromJsonl (contents : List Char) (now : Nat) (stamp : Stamp) :
    Except SessionError Session :=
  match decodeLines 1 (lines contents) .start with
  | .error e => .error e
  | .ok d =>
    let createdAtMs := d.createdAtMs.getD now
    .ok {
      version := d.version
      sessionId := d.sessionId.getD (generateSessionId stamp)
      createdAtMs
      updatedAtMs := d.updatedAtMs.getD createdAtMs
      messages := d.messages
      compaction := d.compaction
      fork := d.fork
      workspaceRoot := d.workspaceRoot
      promptHistory := d.promptHistory
      lastHealthCheckMs := none
      model := d.model
      persistencePath := none }

def toJson (session : Session) : Except SessionError JsonValue := do
  let createdAtMs ← i64FromNat session.createdAtMs "created_at_ms"
  let updatedAtMs ← i64FromNat session.updatedAtMs "updated_at_ms"
  let compaction ← session.compaction.mapM SessionCompaction.toJson
  let promptHistory :=
    if session.promptHistory = [] then []
    else [("prompt_history",
      .array (session.promptHistory.map SessionPromptEntry.toJsonlRecord))]
  return .object (entriesOf ([("version", .number session.version),
    strEntry "session_id" session.sessionId,
    ("created_at_ms", createdAtMs), ("updated_at_ms", updatedAtMs),
    ("messages", .array (session.messages.map ConversationMessage.toJson))] ++
    optEntry "compaction" id compaction ++ optEntry "fork" SessionFork.toJson session.fork ++
    optEntry "workspace_root" .string session.workspaceRoot ++ promptHistory))

def fromJson (value : JsonValue) (now : Nat) (stamp : Stamp) : Except SessionError Session := do
  let object ← objectOr value "session must be an object"
  let version ←
    match (getEntry object "version").bind JsonValue.asI64 with
    | none => missing "version"
    | some n => if 0 ≤ n ∧ n < 2 ^ 32 then pure n.toNat else outOfRange "version"
  let messages ←
    match (getEntry object "messages").bind JsonValue.asArray with
    | none => missing "messages"
    | some values => values.mapM ConversationMessage.fromJson
  let sessionId := (optionalString object "session_id").getD (generateSessionId stamp)
  let createdAtMs ← optionalWith object "created_at_ms" (requiredU64FromValue · "created_at_ms")
  let createdAtMs := createdAtMs.getD now
  let updatedAtMs ← optionalWith object "updated_at_ms" (requiredU64FromValue · "updated_at_ms")
  let compaction ← optionalWith object "compaction" SessionCompaction.fromJson
  let fork ← optionalWith object "fork" SessionFork.fromJson
  let promptHistory :=
    (((getEntry object "prompt_history").bind JsonValue.asArray).getD []).filterMap
      SessionPromptEntry.fromJsonOpt
  return {
    version, sessionId, createdAtMs
    updatedAtMs := updatedAtMs.getD createdAtMs
    messages, compaction, fork
    workspaceRoot := optionalString object "workspace_root"
    promptHistory
    lastHealthCheckMs := none
    model := optionalString object "model"
    persistencePath := none }

def metaRecord (session : Session) : Except SessionError JsonValue := do
  let createdAtMs ← i64FromNat session.createdAtMs "created_at_ms"
  let updatedAtMs ← i64FromNat session.updatedAtMs "updated_at_ms"
  return .object (entriesOf ([strEntry "type" "session_meta",
    ("version", .number session.version), strEntry "session_id" session.sessionId,
    ("created_at_ms", createdAtMs), ("updated_at_ms", updatedAtMs)] ++
    optEntry "fork" SessionFork.toJson session.fork ++
    optEntry "workspace_root" .string session.workspaceRoot ++
    optEntry "model" .string session.model))

def records (session : Session) : Except SessionError (List JsonValue) := do
  let header ← session.metaRecord
  let compaction ← session.compaction.mapM SessionCompaction.toJsonlRecord
  return header :: compaction.toList ++
    session.promptHistory.map SessionPromptEntry.toJsonlRecord ++
    session.messages.map messageRecord

/-- Records as lines of a file, each ended by a line break. -/
def renderLines (values : List JsonValue) : List Char :=
  values.flatMap fun value => value.render ++ ['\n']

def renderJsonlSnapshot (session : Session) : Except SessionError (List Char) := do
  return renderLines (← session.records)

end Session

end DbClinic.Runtime
