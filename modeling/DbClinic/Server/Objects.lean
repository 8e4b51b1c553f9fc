import DbClinic.Persistence.SessionBackend
import DbClinic.Runtime.SessionFile

/-!
The objects of the kernel process. What the source shares through an `Arc` is
named by a number, its reference: session entries, cancel flags, cancel tokens,
maps of pending instructions, one-shot channels, message counters, pairs of
proxy channels, running workers and calls in progress. System prompts, the
model and the provider's credentials reach the language model only and are left
out.
-/

namespace DbClinic.Server

open DbClinic.Runtime Persistence

structure SessionHandle where
  entry : Nat
  createdAtMs : Nat
  cancelFlag : Nat
  cancelToken : Nat
  msgCount : Nat
  deriving DecidableEq

/-- What is read of a session without the actor. -/
structure SharedSessionState where
  pendingProxy : Nat
  cancelFlag : Nat
  cancelToken : Nat
  deriving DecidableEq

/-- The two senders of a proxy are one reference: they are made, handed over
and dropped together. -/
structure ProxyToolExecutor where
  sessionId : String
  channels : Nat
  pending : Nat
  cancelFlag : Nat
  cancelToken : Nat
  nextSeq : Nat
  deriving DecidableEq

structure ConversationRuntime where
  session : Session
  executor : ProxyToolExecutor
  maxIterations : Nat
  cancelSignal : Nat
  cancelToken : Nat
  deriving DecidableEq

structure SessionEntry where
  runtime : ConversationRuntime
  stepIndex : Nat
  deriving DecidableEq

structure ProxyResultPayload where
  output : String
  isError : Bool
  deriving DecidableEq

/-- A one-shot channel: what was sent on it, and which end is still there. -/
structure Oneshot where
  value : Option ProxyResultPayload
  senderAlive : Bool
  receiverAlive : Bool
  deriving DecidableEq

structure ProxyInstructionEvent where
  instructionId : String
  toolUseId : String
  toolName : String
  deriving DecidableEq

structure ProxyTimeoutEvent where
  instructionId : String
  toolUseId : String
  reason : String
  deriving DecidableEq

/-- A pair of bounded channels: the events not received yet, and whether the
receivers are still there. -/
structure ProxyChannels where
  instructions : List ProxyInstructionEvent
  timeouts : List ProxyTimeoutEvent
  receiving : Bool
  deriving DecidableEq

def INSTRUCTION_CAPACITY : Nat := 32

def TIMEOUT_CAPACITY : Nat := 8

/-- The errors of a turn. `sessionError` is a `SessionState` whose text is that
of the session error. -/
inductive RuntimeError where
  | apiFailure (message : String)
  | sessionState (message : String)
  | sessionError (error : SessionError)
  | maxIterations
  | cancelled
  | streamInvalid (message : String)
  | internal (message : String)
  deriving DecidableEq

structure ToolUse where
  id : String
  name : String
  input : String
  deriving DecidableEq

/-- The tool call the loop of `run_turn` is at: the round it belongs to and the
calls after it. -/
structure ToolCall where
  iterations : Nat
  toolUse : ToolUse
  rest : List ToolUse
  deriving DecidableEq

structure ProxyCall where
  call : ToolCall
  instructionId : String
  oneshot : Nat
  deriving DecidableEq

/-- How the wait of a proxy call ended; `undelivered` is a dispatch that found
no subscriber. -/
inductive ProxyOutcome where
  | result (payload : ProxyResultPayload)
  | cancelled
  | disconnected
  | timedOut
  | undelivered
  deriving DecidableEq

/-- The result of a turn: `none` for a summary. -/
abbrev TurnResult := Option RuntimeError

inductive Phase where
  | queued
  | starting
  | loopHead (iterations : Nat)
  | streaming (iterations : Nat)
  | toolLoop (iterations : Nat) (rest : List ToolUse)
  | localTool (call : ToolCall) (input : String)
  | proxyEntry (call : ToolCall)
  | proxyRegister (call : ToolCall) (instructionId : String)
  | proxyDispatch (proxy : ProxyCall)
  | proxyWait (proxy : ProxyCall)
  | proxyCleanup (proxy : ProxyCall) (outcome : ProxyOutcome)
  | proxyExpire (proxy : ProxyCall)
  | toolReturned (call : ToolCall) (output : String) (isError : Bool)
  | completing
  | ended (result : TurnResult)
  | checkpointed (result : TurnResult)
  | metaLoaded (result : TurnResult) (record : Option SessionRecord)
  | unlocked (result : TurnResult)
  | replied (result : TurnResult)
  deriving DecidableEq

/-- The task spawned for a turn. -/
structure Worker where
  sessionId : String
  entry : Nat
  userText : String
  skillContext : Option String
  msgCount : Nat
  phase : Phase
  deriving DecidableEq

/-- The worker has the turn in progress or still to run. -/
def Phase.unfinished : Phase → Bool
  | .replied _ => false
  | .unlocked _ => false
  | _ => true

/-- `run_turn` is on the stack. -/
def Phase.inTurn : Phase → Bool
  | .queued | .ended _ | .checkpointed _ | .metaLoaded _ _ | .unlocked _ | .replied _ => false
  | _ => true

/-- The one-shot channel whose receiving end the turn holds. -/
def Phase.receiver : Phase → Option Nat
  | .proxyDispatch proxy => some proxy.oneshot
  | .proxyWait proxy => some proxy.oneshot
  | .proxyCleanup proxy .undelivered => some proxy.oneshot
  | _ => none

inductive CancelStage where
  | snapshot
  | stored
  | returned
  deriving DecidableEq

/-- A call of `cancel_turn` that found its session. -/
structure CancelCall where
  sessionId : String
  flag : Nat
  token : Nat
  stage : CancelStage
  deriving DecidableEq

inductive DeliverStage where
  | snapshot
  | taken (sender : Nat)
  | returned (delivered : Bool)
  deriving DecidableEq

/-- A call of `deliver_proxy_result` that found its session. -/
structure DeliverCall where
  sessionId : String
  instructionId : String
  payload : ProxyResultPayload
  pending : Nat
  stage : DeliverStage
  deriving DecidableEq

/-- The kernel process, with the disk and the backend it works on. `sessions` is
the actor's map; everything else is reached by the workers and callers too. -/
structure Kernel where
  next : Nat
  sessions : String → Option SessionHandle
  shared : String → Option SharedSessionState
  entries : Nat → Option SessionEntry
  holder : Nat → Option Nat
  flags : Nat → Bool
  tokens : Nat → Bool
  pendings : Nat → String → Option Nat
  oneshots : Nat → Oneshot
  channels : Nat → ProxyChannels
  msgCounts : Nat → Nat
  workers : Nat → Option Worker
  cancels : Nat → Option CancelCall
  delivers : Nat → Option DeliverCall
  disk : SessionTree
  backend : SessionBackend

def Kernel.start (disk : SessionTree) (backend : SessionBackend) : Kernel where
  next := 0
  sessions := fun _ => none
  shared := fun _ => none
  entries := fun _ => none
  holder := fun _ => none
  flags := fun _ => false
  tokens := fun _ => false
  pendings := fun _ _ => none
  oneshots := fun _ => ⟨none, true, true⟩
  channels := fun _ => ⟨[], [], true⟩
  msgCounts := fun _ => 0
  workers := fun _ => none
  cancels := fun _ => none
  delivers := fun _ => none
  disk := disk
  backend := backend

end DbClinic.Server
