import DbClinic.Server.Objects

/-!
One turn: `ConversationRuntime::run_turn` with the composite and the proxy tool
executor below it, and the rest of the worker task around it. A step runs from
one point where another task can be seen to the next. What the provider, the
hooks, the permission policy, the local tools, the compaction, the clock and
the file names contribute comes with the step as a choice of the environment.

The two reads of a cancel check are one step. The other parties write the flag
before the token and reset the flag only, so a check that reads them apart
decides as one of the two moments does.
-/

namespace DbClinic.Server

open DbClinic.Runtime Persistence

/-- An event of the provider's stream. Prompt-cache events leave no trace in
the message and are left out. -/
inductive AssistantEvent where
  | textDelta (delta : String)
  | thinking (thinking : String) (signature : Option String)
  | toolUse (id name input : String)
  | usage (value : TokenUsage)
  | messageStop
  deriving DecidableEq

/-- The accumulators of `build_assistant_message`. -/
structure MessageBuilder where
  text : String
  blocks : List ContentBlock
  finished : Bool
  usage : Option TokenUsage

def MessageBuilder.flushTextBlock (b : MessageBuilder) : MessageBuilder :=
  if b.text = "" then b else { b with text := "", blocks := b.blocks ++ [.text b.text] }

def MessageBuilder.push (b : MessageBuilder) : AssistantEvent → MessageBuilder
  | .thinking thinking signature =>
    let b := b.flushTextBlock
    { b with blocks := b.blocks ++ [.thinking thinking signature] }
  | .textDelta delta => { b with text := b.text ++ delta }
  | .toolUse id name input =>
    let b := b.flushTextBlock
    { b with blocks := b.blocks ++ [.toolUse id name input] }
  | .usage value => { b with usage := some value }
  | .messageStop => { b with finished := true }

def buildAssistantMessage (events : List AssistantEvent) :
    Except RuntimeError ConversationMessage :=
  let b := (events.foldl MessageBuilder.push ⟨"", [], false, none⟩).flushTextBlock
  if b.finished = false then
    .error (.streamInvalid "assistant stream ended without a message stop event")
  else if b.blocks = [] then
    .error (.streamInvalid "assistant stream produced no content")
  else .ok ⟨.assistant, b.blocks, b.usage⟩

def pendingToolUses (message : ConversationMessage) : List ToolUse :=
  message.blocks.filterMap fun
    | .toolUse id name input => some ⟨id, name, input⟩
    | _ => none

def proxyToolNames : List String :=
  ["bash", "Bash", "powershell", "PowerShell", "PowershellTool", "repl", "REPL", "ReplTool"]

def disabledToolNames : List String :=
  ["WebFetch", "WebSearch", "RemoteTrigger", "MCP", "ListMcpResources", "ReadMcpResource",
    "McpAuth"]

def augmentedText (worker : Worker) : String :=
  match worker.skillContext with
  | some ctx => ctx ++ "\n\n---\n\n" ++ worker.userText
  | none => worker.userText

def disabledTool (name : String) : String :=
  "tool \x60" ++ name ++ "\x60 is disabled in this deployment (network/MCP tools are off)"

def instructionIdOf (sessionId : String) (seq : Nat) : String :=
  "inst-" ++ sessionId ++ "-" ++ toString seq

/-- What the hooks and the permission policy decide before a tool runs: its
effective input, or the text of the refusal. -/
inductive ToolGate where
  | allow (effectiveInput : String)
  | deny (reason : String)
  deriving DecidableEq

/-- Clock readings and file names for a message that is persisted. -/
structure PushStamps where
  now : Nat
  save : SaveStamps
  deriving DecidableEq

/-- A step of a worker, with the environment's part in it. -/
inductive TurnAct where
  | acquire
  | enter (probe : Except String Unit) (stamps : PushStamps)
  | check
  | stream (reply : Except String (List AssistantEvent)) (stamps : PushStamps)
  | gate (decision : ToolGate) (stamps : PushStamps)
  | runLocal (result : Except String String)
  | proxyCheck
  | register
  | dispatch
  | observeCancel
  | observeResult
  | observeTimeout
  | cleanup
  | expire
  | pushResult (output : String) (failed : Bool) (stamps : PushStamps)
  | complete (compacted : Option (List ConversationMessage × SessionCompaction × Nat))
  | panic (message : String)
  | saveCheckpoint (now : Nat)
  | loadMeta
  | saveMeta (now : Nat)
  | reply

/-- The part of the kernel a worker's step reads and writes: its own phase and
entry, the objects of that entry, the disk and the backend. -/
structure TurnView where
  phase : Phase
  entry : SessionEntry
  holder : Option Nat
  pending : String → Option Nat
  oneshots : Nat → Oneshot
  channels : ProxyChannels
  msgCount : Nat
  next : Nat
  disk : SessionTree
  backend : SessionBackend

namespace TurnView

def withSession (v : TurnView) (session : Session) : TurnView :=
  { v with entry := { v.entry with runtime := { v.entry.runtime with session } } }

/-- Push a message onto the session and go on with `after`; a message that
cannot be persisted ends the turn. -/
def push (v : TurnView) (message : ConversationMessage) (stamps : PushStamps) (after : Phase) :
    TurnView :=
  let r := v.entry.runtime.session.pushMessage v.disk message stamps.now stamps.save
  let phase := match r.2.2 with
    | .ok () => after
    | .error e => .ended (some (.sessionError e))
  { v.withSession r.1 with disk := r.2.1, phase }

def probeFailure (error : String) : String :=
  "Session health probe failed after compaction: Tool executor probe failed: " ++ error ++
    ". The session may be in an inconsistent state. " ++
    "Consider starting a fresh session with /session new."

/-- Entering `run_turn`: the health probe of a compacted session, then the
user's message. -/
def enter (v : TurnView) (worker : Worker) (probe : Except String Unit) (stamps : PushStamps) :
    TurnView :=
  let session := v.entry.runtime.session
  let healthy := match session.compaction, probe with
    | none, _ => none
    | some _, .ok () => none
    | some _, .error e => if session.messages = [] then none else some e
  match healthy with
  | some e =>
    { v with phase := .ended (some (.sessionState (probeFailure e))) }
  | none => v.push (.userText (augmentedText worker)) stamps (.loopHead 0)

/-- The head of the loop: the iteration limit, then the cancel signals. -/
def check (v : TurnView) (flag token : Bool) (iterations : Nat) : TurnView :=
  if v.entry.runtime.maxIterations < iterations + 1 then
    { v with phase := .ended (some .maxIterations) }
  else if flag || token then { v with phase := .ended (some .cancelled) }
  else { v with phase := .streaming (iterations + 1) }

def stream (v : TurnView) (iterations : Nat) (reply : Except String (List AssistantEvent))
    (stamps : PushStamps) : TurnView :=
  match reply with
  | .error e => { v with phase := .ended (some (.apiFailure e)) }
  | .ok events =>
    match buildAssistantMessage events with
    | .error e => { v with phase := .ended (some e) }
    | .ok message =>
      let uses := pendingToolUses message
      v.push message stamps (if uses = [] then .completing else .toolLoop iterations uses)

/-- The next tool call, or the next round when there is none left. -/
def gate (v : TurnView) (iterations : Nat) (rest : List ToolUse) (decision : ToolGate)
    (stamps : PushStamps) : TurnView :=
  match rest with
  | [] => { v with phase := .loopHead iterations }
  | toolUse :: rest =>
    let call : ToolCall := ⟨iterations, toolUse, rest⟩
    match decision with
    | .deny reason =>
      v.push (.toolResult toolUse.id toolUse.name reason true) stamps
        (.toolLoop iterations rest)
    | .allow input =>
      if toolUse.name ∈ disabledToolNames then
        { v with phase := .toolReturned call (disabledTool toolUse.name) true }
      else if toolUse.name ∈ proxyToolNames then { v with phase := .proxyEntry call }
      else { v with phase := .localTool call input }

/-- `next_instruction_id`. -/
def issue (v : TurnView) (call : ToolCall) : TurnView :=
  let executor := v.entry.runtime.executor
  let seq := executor.nextSeq + 1
  { v with
    entry := { v.entry with runtime := { v.entry.runtime with
      executor := { executor with nextSeq := seq } } }
    phase := .proxyRegister call (instructionIdOf executor.sessionId seq) }

def proxyCheck (v : TurnView) (flag token : Bool) (call : ToolCall) : TurnView :=
  if flag || token then
    { v with phase := .toolReturned call "turn cancelled before proxy dispatch" true }
  else v.issue call

/-- Dropping a sender that may be in the map. -/
def dropSender (oneshots : Nat → Oneshot) : Option Nat → Nat → Oneshot
  | some o => Function.update oneshots o { oneshots o with senderAlive := false }
  | none => oneshots

/-- Make the one-shot channel and put its sender into the pending map. -/
def register (v : TurnView) (call : ToolCall) (instructionId : String) : TurnView :=
  let oneshots := dropSender v.oneshots (v.pending instructionId)
  { v with
    next := v.next + 1
    oneshots := Function.update oneshots v.next ⟨none, true, true⟩
    pending := Function.update v.pending instructionId (some v.next)
    phase := .proxyDispatch ⟨call, instructionId, v.next⟩ }

def toolUseIdOf (instructionId : String) : String := instructionId ++ "-toolcall"

/-- Send the instruction; a full channel makes the step wait. -/
def dispatch (v : TurnView) (proxy : ProxyCall) : Option TurnView :=
  if v.channels.receiving = false then some { v with phase := .proxyCleanup proxy .undelivered }
  else if v.channels.instructions.length < INSTRUCTION_CAPACITY then
    let event : ProxyInstructionEvent :=
      ⟨proxy.instructionId, toolUseIdOf proxy.instructionId, proxy.call.toolUse.name⟩
    some { v with
      channels := { v.channels with instructions := v.channels.instructions ++ [event] }
      phase := .proxyWait proxy }
  else none

def leaveWait (v : TurnView) (proxy : ProxyCall) (outcome : ProxyOutcome) : TurnView :=
  { v with
    oneshots := Function.update v.oneshots proxy.oneshot
      { v.oneshots proxy.oneshot with receiverAlive := false }
    phase := .proxyCleanup proxy outcome }

/-- The branches of the biased `select!`: the token first, then the result,
then the clock. -/
def observeCancel (v : TurnView) (token : Bool) (proxy : ProxyCall) : Option TurnView :=
  if token then some (v.leaveWait proxy .cancelled) else none

def observeResult (v : TurnView) (token : Bool) (proxy : ProxyCall) : Option TurnView :=
  if token then none
  else
    match (v.oneshots proxy.oneshot).value with
    | some payload => some (v.leaveWait proxy (.result payload))
    | none =>
      if (v.oneshots proxy.oneshot).senderAlive then none
      else some (v.leaveWait proxy .disconnected)

def observeTimeout (v : TurnView) (token : Bool) (proxy : ProxyCall) : Option TurnView :=
  if token || (v.oneshots proxy.oneshot).value.isSome ||
      (v.oneshots proxy.oneshot).senderAlive = false then none
  else some (v.leaveWait proxy .timedOut)

/-- What `execute` returns after the wait; the timeout is reported first. -/
def afterCleanup (proxy : ProxyCall) : ProxyOutcome → Phase
  | .result payload => .toolReturned proxy.call payload.output payload.isError
  | .cancelled => .toolReturned proxy.call "proxy tool cancelled by user" true
  | .disconnected => .toolReturned proxy.call "proxy result channel disconnected" true
  | .timedOut => .proxyExpire proxy
  | .undelivered =>
    .toolReturned proxy.call "failed to dispatch proxy instruction: channel closed" true

/-- `remove_pending`, then the result of the call. A dispatch that failed drops
its receiving end here. -/
def cleanup (v : TurnView) (proxy : ProxyCall) (outcome : ProxyOutcome) : TurnView :=
  let oneshots := dropSender v.oneshots (v.pending proxy.instructionId)
  { v with
    oneshots := Function.update oneshots proxy.oneshot
      { oneshots proxy.oneshot with receiverAlive := false }
    pending := Function.update v.pending proxy.instructionId none
    phase := afterCleanup proxy outcome }

def expire (v : TurnView) (proxy : ProxyCall) : Option TurnView :=
  let returned : Phase :=
    .toolReturned proxy.call "proxy tool timed out after 1800 seconds" true
  if v.channels.receiving = false then some { v with phase := returned }
  else if v.channels.timeouts.length < TIMEOUT_CAPACITY then
    let event : ProxyTimeoutEvent :=
      ⟨proxy.instructionId, toolUseIdOf proxy.instructionId, "timeout"⟩
    some { v with
      channels := { v.channels with timeouts := v.channels.timeouts ++ [event] }
      phase := returned }
  else none

/-- The post-hooks' text and verdict, then the tool's result message. -/
def pushResult (v : TurnView) (call : ToolCall) (isError : Bool) (output : String)
    (failed : Bool) (stamps : PushStamps) : TurnView :=
  v.push (.toolResult call.toolUse.id call.toolUse.name output (isError || failed)) stamps
    (.toolLoop call.iterations call.rest)

/-- Automatic compaction replaces the messages in memory; the turn succeeds. -/
def complete (v : TurnView)
    (compacted : Option (List ConversationMessage × SessionCompaction × Nat)) : TurnView :=
  match compacted with
  | none => { v with phase := .ended none }
  | some (messages, compaction, now) =>
    let session := v.entry.runtime.session.touch now
    { v.withSession { session with messages, compaction := some compaction } with
      phase := .ended none }

/-- A panic unwinds to the worker; the futures of the turn are dropped. -/
def panicked (v : TurnView) (message : String) : TurnView :=
  let oneshots := match v.phase.receiver with
    | some o => Function.update v.oneshots o { v.oneshots o with receiverAlive := false }
    | none => v.oneshots
  { v with oneshots, phase := .ended (some (.internal message)) }

def checkpointOf (worker : Worker) (entry : SessionEntry) (now : Nat) : Checkpoint where
  checkpointId := "cp-" ++ worker.sessionId ++ "-" ++ toString entry.stepIndex
  sessionId := worker.sessionId
  stepIndex := entry.stepIndex
  timestampMs := now
  messageCount := entry.runtime.session.messages.length
  summary := none

/-- The step index goes up and the checkpoint of the step before is saved. The
worker holds the lock since it read that index. -/
def saveCheckpoint (v : TurnView) (worker : Worker) (result : TurnResult) (now : Nat) :
    TurnView :=
  { v with
    entry := { v.entry with stepIndex := v.entry.stepIndex + 1 }
    backend := (v.backend.saveCheckpoint (checkpointOf worker v.entry now)).1
    phase := .checkpointed result }

def loadMeta (v : TurnView) (worker : Worker) (result : TurnResult) : TurnView :=
  let record := match v.backend.loadSessionMeta worker.sessionId with
    | .ok record => record
    | .error _ => none
  { v with phase := .metaLoaded result record }

/-- Save the metadata again, publish the message count, release the lock. -/
def saveMeta (v : TurnView) (result : TurnResult) (record : Option SessionRecord) (now : Nat) :
    TurnView :=
  let backend := match record with
    | some record => (v.backend.saveSessionMeta { record with updatedAtMs := now }).1
    | none => v.backend
  { v with
    backend
    msgCount := v.entry.runtime.session.messages.length
    holder := none
    phase := .unlocked result }

/-- One step of the worker `w`. The loop head reads the cancel signals of the
runtime, the proxy those of the executor. -/
def step (v : TurnView) (w : Nat) (worker : Worker) (flags tokens : Nat → Bool) :
    TurnAct → Option TurnView
  | .acquire =>
    match v.phase, v.holder with
    | .queued, none => some { v with holder := some w, phase := .starting }
    | _, _ => none
  | .enter probe stamps =>
    match v.phase with
    | .starting => some (v.enter worker probe stamps)
    | _ => none
  | .check =>
    match v.phase with
    | .loopHead iterations =>
      some (v.check (flags v.entry.runtime.cancelSignal)
        (tokens v.entry.runtime.cancelToken) iterations)
    | _ => none
  | .stream reply stamps =>
    match v.phase with
    | .streaming iterations => some (v.stream iterations reply stamps)
    | _ => none
  | .gate decision stamps =>
    match v.phase with
    | .toolLoop iterations rest => some (v.gate iterations rest decision stamps)
    | _ => none
  | .runLocal result =>
    match v.phase with
    | .localTool call _ =>
      match result with
      | .ok output => some { v with phase := .toolReturned call output false }
      | .error e => some { v with phase := .toolReturned call e true }
    | _ => none
  | .proxyCheck =>
    match v.phase with
    | .proxyEntry call =>
      some (v.proxyCheck (flags v.entry.runtime.executor.cancelFlag)
        (tokens v.entry.runtime.executor.cancelToken) call)
    | _ => none
  | .register =>
    match v.phase with
    | .proxyRegister call instructionId => some (v.register call instructionId)
    | _ => none
  | .dispatch =>
    match v.phase with
    | .proxyDispatch proxy => v.dispatch proxy
    | _ => none
  | .observeCancel =>
    match v.phase with
    | .proxyWait proxy => v.observeCancel (tokens v.entry.runtime.executor.cancelToken) proxy
    | _ => none
  | .observeResult =>
    match v.phase with
    | .proxyWait proxy => v.observeResult (tokens v.entry.runtime.executor.cancelToken) proxy
    | _ => none
  | .observeTimeout =>
    match v.phase with
    | .proxyWait proxy => v.observeTimeout (tokens v.entry.runtime.executor.cancelToken) proxy
    | _ => none
  | .cleanup =>
    match v.phase with
    | .proxyCleanup proxy outcome => some (v.cleanup proxy outcome)
    | _ => none
  | .expire =>
    match v.phase with
    | .proxyExpire proxy => v.expire proxy
    | _ => none
  | .pushResult output failed stamps =>
    match v.phase with
    | .toolReturned call _ isError => some (v.pushResult call isError output failed stamps)
    | _ => none
  | .complete compacted =>
    match v.phase with
    | .completing => some (v.complete compacted)
    | _ => none
  | .panic message => if v.phase.inTurn then some (v.panicked message) else none
  | .saveCheckpoint now =>
    match v.phase with
    | .ended result => some (v.saveCheckpoint worker result now)
    | _ => none
  | .loadMeta =>
    match v.phase with
    | .checkpointed result => some (v.loadMeta worker result)
    | _ => none
  | .saveMeta now =>
    match v.phase with
    | .metaLoaded result record => some (v.saveMeta result record now)
    | _ => none
  | .reply =>
    match v.phase with
    | .unlocked result => some { v with phase := .replied result }
    | _ => none

end TurnView

end DbClinic.Server
