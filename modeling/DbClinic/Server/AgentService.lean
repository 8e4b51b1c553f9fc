import DbClinic.Server.SessionKeys

/-!
The gRPC service above the session manager. A call is one step. The service
makes the proxy channels of a session, keeps their receivers until a chat
stream asks for them, and hands them to a pair of forwarders that write to that
stream. What a chat message makes the kernel do besides is a step of the kernel
of its own. Receivers are dropped where their last owner goes away.
-/

namespace DbClinic.Server

open DbClinic.Runtime Persistence Transition

/-- `maxIterations` is the field of the request's optional config. -/
structure CreateSessionRequest where
  model : String
  maxIterations : Option Int
  dataDir : String
  userId : String
  deriving DecidableEq

structure ResumeSessionRequest where
  sessionId : String
  dataDir : String
  model : String
  maxIterations : Option Int
  userId : String
  deriving DecidableEq

structure ChatStream where
  connected : Bool
  forwardersStarted : String → Bool

/-- The tasks that write the proxy events of a session to a chat stream. They
own the receivers. -/
structure Forwarders where
  sessionId : String
  stream : Nat
  receivers : Nat
  deriving DecidableEq

structure AgentService where
  kernel : Kernel
  nextChannels : Nat
  pendingProxyReceivers : String → Option Nat
  streams : Nat → Option ChatStream
  forwarders : List Forwarders

inductive ServiceAction where
  | createSession (req : CreateSessionRequest) (stamps : CommandStamps)
  | resumeSession (req : ResumeSessionRequest) (stamps : CommandStamps)
  | closeSession (sessionId : String)
  | chatOpen (stream : Nat)
  | chatInput (stream : Nat) (sessionId : String)
  | chatDisconnect (stream : Nat)
  | kernel (a : Action)

namespace AgentService

def start (disk : SessionTree) (backend : SessionBackend) : AgentService where
  kernel := .start disk backend
  nextChannels := 0
  pendingProxyReceivers := fun _ => none
  streams := fun _ => none
  forwarders := []

def modelOrMock (model : String) : String := if model = "" then "mock" else model

/-- A limit that is not positive is no limit. -/
def maxIterationsOf (config : Option Int) : Option Nat :=
  config.bind fun n => if 0 < n then some n.toNat else none

def nonEmpty (s : String) : Option String := if s = "" then none else some s

def createRequest (s : AgentService) (req : CreateSessionRequest) : CreateRequest where
  model := modelOrMock req.model
  maxIterations := maxIterationsOf req.maxIterations
  channels := s.nextChannels
  dataDir := nonEmpty req.dataDir
  userId := nonEmpty req.userId

/-- Put the receivers kept for an id; the ones that were there are dropped. -/
def park (s : AgentService) (sessionId : String) (receivers : Option Nat) : AgentService :=
  { s with
    kernel := match s.pendingProxyReceivers sessionId with
      | none => s.kernel
      | some old => s.kernel.dropReceivers old
    pendingProxyReceivers := Function.update s.pendingProxyReceivers sessionId receivers }

/-- After the actor's reply: the channels of the call are used up, and their
receivers are kept under the id it answered with. -/
def keepReceivers (s : AgentService) (kernel : Kernel) (sessionId : String) : AgentService :=
  { s with kernel, nextChannels := s.nextChannels + 1 }.park sessionId (some s.nextChannels)

def createSession (s : AgentService) (req : CreateSessionRequest) (stamps : CommandStamps) :
    AgentService × String × Nat :=
  let (kernel, sessionId, createdAtMs) := s.kernel.create (s.createRequest req) stamps
  (s.keepReceivers kernel sessionId, sessionId, createdAtMs)

def resumeRequest (s : AgentService) (req : ResumeSessionRequest) : ResumeRequest where
  sessionId := req.sessionId
  dataDir := req.dataDir
  userId := req.userId
  model := modelOrMock req.model
  maxIterations := maxIterationsOf req.maxIterations
  channels := s.nextChannels

/-- The receivers made for the call are kept whether the actor has used their
senders or not. -/
def resumeSession (s : AgentService) (req : ResumeSessionRequest) (stamps : CommandStamps) :
    AgentService × Except String (String × Nat × Nat) :=
  if req.dataDir = "" then (s, .error "data_dir is required")
  else
    let (kernel, sessionId, createdAtMs, loaded) := s.kernel.resume (s.resumeRequest req) stamps
    (s.keepReceivers kernel sessionId, .ok (sessionId, createdAtMs, loaded % 2 ^ 32))

/-- `cancel_turn` without another task in between. -/
def cancelTurn (k : Kernel) (sessionId : String) : Kernel :=
  let called := k.cancelCall sessionId
  let stored := (called.cancelStore k.next).getD called
  (stored.cancelToken k.next).getD stored

def closeSession (s : AgentService) (sessionId : String) : AgentService :=
  let s := s.park sessionId none
  { s with kernel := (cancelTurn s.kernel sessionId).remove sessionId }

def connected (s : AgentService) (stream : Nat) : Bool :=
  (s.streams stream).any ChatStream.connected

/-- A message of a session on a stream. The first one takes the receivers that
are kept for the session, if there are any. -/
def chatInput (s : AgentService) (stream : Nat) (sessionId : String) : Option AgentService :=
  match s.streams stream with
  | some ⟨true, started⟩ =>
    if started sessionId then some s
    else
      match s.pendingProxyReceivers sessionId with
      | none => some s
      | some receivers =>
        some { s with
          pendingProxyReceivers := Function.update s.pendingProxyReceivers sessionId none
          forwarders := s.forwarders ++ [⟨sessionId, stream, receivers⟩]
          streams := Function.update s.streams stream
            (some ⟨true, Function.update started sessionId true⟩) }
  | _ => none

def chatDisconnect (s : AgentService) (stream : Nat) : Option AgentService :=
  match s.streams stream with
  | some ⟨true, started⟩ =>
    some { s with streams := Function.update s.streams stream (some ⟨false, started⟩) }
  | _ => none

/-- The steps of the kernel that are no calls of the service. Only forwarders
read from receivers, and they drop them when they cannot write to their stream. -/
def runsInside (s : AgentService) : Action → Bool
  | .runTurnStreaming _ _ _ => true
  | .receive c => s.forwarders.any fun f => f.receivers == c
  | .dropReceivers c => s.forwarders.any fun f => f.receivers == c && !s.connected f.stream
  | a => !a.isCommand

def step (s : AgentService) : ServiceAction → Option AgentService
  | .createSession req stamps => some (s.createSession req stamps).1
  | .resumeSession req stamps => some (s.resumeSession req stamps).1
  | .closeSession sid => some (s.closeSession sid)
  | .chatOpen stream =>
    match s.streams stream with
    | none => some { s with
        streams := Function.update s.streams stream (some ⟨true, fun _ => false⟩) }
    | some _ => none
  | .chatInput stream sid => s.chatInput stream sid
  | .chatDisconnect stream => s.chatDisconnect stream
  | .kernel a =>
    if s.runsInside a then (s.kernel.step a).map fun kernel => { s with kernel } else none

end AgentService

end DbClinic.Server
