import DbClinic.Lib.Transition
import DbClinic.Server.Turn

/-!
The session manager: the actor's commands, the calls that bypass the actor, the
workers' turns, and what the world outside does to the channels and the files.
A command of the actor is one step. The calls that bypass it are cut where
another task can come between: `cancel_turn` reads the shared map, writes the
flag and cancels the token; `deliver_proxy_result` reads the shared map, takes
the sender out of the pending map and sends. `GetUsage` and `ListBackend`
change nothing and are left out.
-/

namespace DbClinic.Server

open DbClinic.Runtime Persistence

/-- Clock readings, fresh ids and file names of one command. -/
structure CommandStamps where
  now : Nat
  id : Stamp
  metaTime : Nat
  save : SaveStamps
  bootstrap : SaveStamps
  deriving DecidableEq

structure CreateRequest where
  model : String
  maxIterations : Option Nat
  channels : Nat
  dataDir : Option String
  userId : Option String
  deriving DecidableEq

structure ResumeRequest where
  sessionId : String
  dataDir : String
  userId : String
  model : String
  maxIterations : Option Nat
  channels : Nat
  deriving DecidableEq

/-- `usize::MAX`, the iteration limit of a runtime that is given none. -/
def defaultMaxIterations : Nat := 2 ^ 64 - 1

namespace Kernel

/-- `create_dir_all` with its error ignored. -/
def makeDir (disk : SessionTree) (dir : Path) : SessionTree :=
  match disk.createDirAll dir with
  | .ok t => t
  | .error _ => disk

def sessionFilePath (sessionsDir : Path) (sessionId : String) : Path :=
  sessionsDir.join (sessionId ++ ".jsonl")

/-- The runtime both commands build around a session, its objects fresh under
one reference. -/
def newEntry (r : Nat) (session : Session) (maxIterations : Option Nat) (channels : Nat) :
    SessionEntry where
  runtime := {
    session
    executor := {
      sessionId := session.sessionId
      channels
      pending := r
      cancelFlag := r
      cancelToken := r
      nextSeq := 0 }
    maxIterations := maxIterations.getD defaultMaxIterations
    cancelSignal := r
    cancelToken := r }
  stepIndex := 0

def bootstrapFile (disk : SessionTree) (session : Session) (stamps : SaveStamps) : SessionTree :=
  match session.persistencePath with
  | none => disk
  | some path => if disk.pathExists path then disk else (session.saveToPath disk path stamps).1

/-- Save the metadata, share the state under the session's own id, bootstrap
its file, and put the handle under `key`. -/
def install (k : Kernel) (key : String) (session : Session) (record : SessionRecord)
    (maxIterations : Option Nat) (channels : Nat) (msgCount : Nat) (bootstrap : SaveStamps) :
    Kernel :=
  let r := k.next
  { k with
    next := r + 1
    backend := (k.backend.saveSessionMeta record).1
    entries := Function.update k.entries r (some (newEntry r session maxIterations channels))
    holder := Function.update k.holder r none
    flags := Function.update k.flags r false
    tokens := Function.update k.tokens r false
    pendings := Function.update k.pendings r fun _ => none
    msgCounts := Function.update k.msgCounts r msgCount
    disk := bootstrapFile k.disk session bootstrap
    shared := Function.update k.shared session.sessionId (some ⟨r, r, r⟩)
    sessions := Function.update k.sessions key (some ⟨r, session.createdAtMs, r, r, r⟩) }

/-- The session `SessionCmd::Create` makes, and the disk with its directory. -/
def createdSession (k : Kernel) (req : CreateRequest) (stamps : CommandStamps) :
    Session × SessionTree :=
  let session := Session.new stamps.now stamps.id
  match req.dataDir with
  | none => (session, k.disk)
  | some dir =>
    let sessionsDir := match req.userId with
      | some uid => ((Path.join [] dir).join "sessions").join uid
      | none => (Path.join [] dir).join "sessions"
    ((session.withWorkspaceRoot dir).withPersistencePath
      (sessionFilePath sessionsDir session.sessionId), makeDir k.disk sessionsDir)

/-- `SessionCmd::Create`, with its reply. -/
def create (k : Kernel) (req : CreateRequest) (stamps : CommandStamps) :
    Kernel × String × Nat :=
  let (session, disk) := k.createdSession req stamps
  let record : SessionRecord :=
    { sessionId := session.sessionId
      createdAtMs := session.createdAtMs
      updatedAtMs := stamps.metaTime
      model := some req.model
      workspaceRoot := session.workspaceRoot
      forkParentId := none
      forkBranchName := none
      username := req.userId }
  ({ k with disk }.install session.sessionId session record req.maxIterations req.channels 0
      stamps.bootstrap,
    session.sessionId, session.createdAtMs)

def resumeDir (req : ResumeRequest) : Path :=
  let sessions := (Path.join [] req.dataDir).join "sessions"
  if req.userId = "" then sessions else sessions.join req.userId

def resumePath (req : ResumeRequest) : Path := sessionFilePath (resumeDir req) req.sessionId

/-- What `load_from_path` finds at the path of a resume, whose directory has
been made. -/
def loadRequested (disk : SessionTree) (req : ResumeRequest) (stamps : CommandStamps) :
    Except SessionError Session :=
  Session.loadFromPath (makeDir disk (resumeDir req)) (resumePath req) stamps.now stamps.id

def freshSession (req : ResumeRequest) (stamps : CommandStamps) : Session :=
  (({ Session.new stamps.now stamps.id with sessionId := req.sessionId } : Session)
    |>.withWorkspaceRoot req.dataDir).withPersistencePath (resumePath req)

/-- The session a `Resume` without a live handle works on: the one in the file,
or, whatever the error was, a fresh one that is saved over the path. -/
def resumedSession (disk : SessionTree) (req : ResumeRequest) (stamps : CommandStamps) :
    Session × SessionTree :=
  match loadRequested disk req stamps with
  | .ok session => (session.withWorkspaceRoot req.dataDir, makeDir disk (resumeDir req))
  | .error _ =>
    let fresh := freshSession req stamps
    (fresh, (fresh.saveToPath (makeDir disk (resumeDir req)) (resumePath req) stamps.save).1)

/-- `SessionCmd::Resume`, with its reply. A live session is left alone. -/
def resume (k : Kernel) (req : ResumeRequest) (stamps : CommandStamps) :
    Kernel × String × Nat × Nat :=
  match k.sessions req.sessionId with
  | some handle => (k, req.sessionId, handle.createdAtMs, k.msgCounts handle.msgCount)
  | none =>
    let (session, disk) := resumedSession k.disk req stamps
    let record : SessionRecord :=
      { sessionId := session.sessionId
        createdAtMs := session.createdAtMs
        updatedAtMs := stamps.metaTime
        model := some req.model
        workspaceRoot := some req.dataDir
        forkParentId := session.fork.map SessionFork.parentSessionId
        forkBranchName := session.fork.bind SessionFork.branchName
        username := if req.userId = "" then none else some req.userId }
    ({ k with disk }.install req.sessionId session record req.maxIterations req.channels
        session.messages.length stamps.bootstrap,
      session.sessionId, session.createdAtMs, session.messages.length)

/-- `SessionCmd::RunTurnStreaming`: reset the flag, put a fresh token into the
shared state and the handle, spawn the worker. An unknown id changes nothing. -/
def runTurnStreaming (k : Kernel) (sessionId userText : String) (skillContext : Option String) :
    Kernel :=
  match k.sessions sessionId with
  | none => k
  | some handle =>
    let token := k.next
    let worker : Worker :=
      { sessionId, entry := handle.entry, userText, skillContext
        msgCount := handle.msgCount, phase := .queued }
    { k with
      next := token + 1
      flags := Function.update k.flags handle.cancelFlag false
      tokens := Function.update k.tokens token false
      shared := Function.update k.shared sessionId
        ((k.shared sessionId).map fun state => { state with cancelToken := token })
      sessions := Function.update k.sessions sessionId
        (some { handle with cancelToken := token })
      workers := Function.update k.workers token (some worker) }

/-- `SessionCmd::Remove`. -/
def remove (k : Kernel) (sessionId : String) : Kernel :=
  { k with
    sessions := Function.update k.sessions sessionId none
    shared := Function.update k.shared sessionId none
    backend := (k.backend.deleteSession sessionId).1 }

/-- `cancel_turn` up to its snapshot. An unknown id returns at once. -/
def cancelCall (k : Kernel) (sessionId : String) : Kernel :=
  match k.shared sessionId with
  | none => k
  | some state =>
    { k with
      next := k.next + 1
      cancels := Function.update k.cancels k.next
        (some ⟨sessionId, state.cancelFlag, state.cancelToken, .snapshot⟩) }

/-- `flag.store(true)`. -/
def cancelStore (k : Kernel) (c : Nat) : Option Kernel :=
  match k.cancels c with
  | some ⟨sid, flag, token, .snapshot⟩ =>
    some { k with
      flags := Function.update k.flags flag true
      cancels := Function.update k.cancels c (some ⟨sid, flag, token, .stored⟩) }
  | _ => none

/-- `token.cancel()`, and the return of `true`. -/
def cancelToken (k : Kernel) (c : Nat) : Option Kernel :=
  match k.cancels c with
  | some ⟨sid, flag, token, .stored⟩ =>
    some { k with
      tokens := Function.update k.tokens token true
      cancels := Function.update k.cancels c (some ⟨sid, flag, token, .returned⟩) }
  | _ => none

/-- `deliver_proxy_result` up to its snapshot. An unknown id returns at once. -/
def deliverCall (k : Kernel) (sessionId instructionId : String) (payload : ProxyResultPayload) :
    Kernel :=
  match k.shared sessionId with
  | none => k
  | some state =>
    { k with
      next := k.next + 1
      delivers := Function.update k.delivers k.next
        (some ⟨sessionId, instructionId, payload, state.pendingProxy, .snapshot⟩) }

/-- `guard.remove(instruction_id)`; without an entry the call returns `false`. -/
def deliverTake (k : Kernel) (d : Nat) : Option Kernel :=
  match k.delivers d with
  | some ⟨sid, iid, payload, pending, .snapshot⟩ =>
    match k.pendings pending iid with
    | none =>
      some { k with
        delivers := Function.update k.delivers d
          (some ⟨sid, iid, payload, pending, .returned false⟩) }
    | some sender =>
      some { k with
        pendings := Function.update k.pendings pending
          (Function.update (k.pendings pending) iid none)
        delivers := Function.update k.delivers d
          (some ⟨sid, iid, payload, pending, .taken sender⟩) }
  | _ => none

/-- `tx.send(payload)`, which consumes the sender. -/
def deliverSend (k : Kernel) (d : Nat) : Option Kernel :=
  match k.delivers d with
  | some ⟨sid, iid, payload, pending, .taken sender⟩ =>
    let oneshot := k.oneshots sender
    let value := if oneshot.receiverAlive then some payload else oneshot.value
    some { k with
      oneshots := Function.update k.oneshots sender { oneshot with value, senderAlive := false }
      delivers := Function.update k.delivers d
        (some ⟨sid, iid, payload, pending, .returned oneshot.receiverAlive⟩) }
  | _ => none

def view (k : Kernel) (worker : Worker) (entry : SessionEntry) : TurnView where
  phase := worker.phase
  entry := entry
  holder := k.holder worker.entry
  pending := k.pendings entry.runtime.executor.pending
  oneshots := k.oneshots
  channels := k.channels entry.runtime.executor.channels
  msgCount := k.msgCounts worker.msgCount
  next := k.next
  disk := k.disk
  backend := k.backend

def put (k : Kernel) (w : Nat) (worker : Worker) (v : TurnView) : Kernel :=
  { k with
    next := v.next
    entries := Function.update k.entries worker.entry (some v.entry)
    holder := Function.update k.holder worker.entry v.holder
    pendings := Function.update k.pendings v.entry.runtime.executor.pending v.pending
    oneshots := v.oneshots
    channels := Function.update k.channels v.entry.runtime.executor.channels v.channels
    msgCounts := Function.update k.msgCounts worker.msgCount v.msgCount
    workers := Function.update k.workers w (some { worker with phase := v.phase })
    disk := v.disk
    backend := v.backend }

/-- One step of the worker `w`. -/
def turn (k : Kernel) (w : Nat) (act : TurnAct) : Option Kernel :=
  match k.workers w with
  | none => none
  | some worker =>
    match k.entries worker.entry with
    | none => none
    | some entry =>
      ((k.view worker entry).step w worker k.flags k.tokens act).map (k.put w worker)

end Kernel

/-- A step of the system. -/
inductive Action where
  | create (req : CreateRequest) (stamps : CommandStamps)
  | resume (req : ResumeRequest) (stamps : CommandStamps)
  | runTurnStreaming (sessionId userText : String) (skillContext : Option String)
  | remove (sessionId : String)
  | turn (w : Nat) (act : TurnAct)
  | cancelCall (sessionId : String)
  | cancelStore (c : Nat)
  | cancelToken (c : Nat)
  | deliverCall (sessionId instructionId : String) (payload : ProxyResultPayload)
  | deliverTake (d : Nat)
  | deliverSend (d : Nat)
  | receive (channels : Nat)
  | dropReceivers (channels : Nat)
  | changeDisk (disk : SessionTree)
  | restart

namespace Kernel

/-- The forwarders take the oldest event of each kind. -/
def receive (k : Kernel) (c : Nat) : Kernel :=
  let channels := k.channels c
  { k with
    channels := Function.update k.channels c
      { channels with
        instructions := channels.instructions.tail
        timeouts := channels.timeouts.tail } }

def dropReceivers (k : Kernel) (c : Nat) : Kernel :=
  { k with
    channels := Function.update k.channels c
      { k.channels c with instructions := [], timeouts := [], receiving := false } }

/-- A new process on the same disk and backend; references are not used again. -/
def restart (k : Kernel) : Kernel := { start k.disk k.backend with next := k.next }

def step (k : Kernel) : Action → Option Kernel
  | .create req stamps => some (k.create req stamps).1
  | .resume req stamps => some (k.resume req stamps).1
  | .runTurnStreaming sid text ctx => some (k.runTurnStreaming sid text ctx)
  | .remove sid => some (k.remove sid)
  | .turn w act => k.turn w act
  | .cancelCall sid => some (k.cancelCall sid)
  | .cancelStore c => k.cancelStore c
  | .cancelToken c => k.cancelToken c
  | .deliverCall sid iid payload => some (k.deliverCall sid iid payload)
  | .deliverTake d => k.deliverTake d
  | .deliverSend d => k.deliverSend d
  | .receive c => some (k.receive c)
  | .dropReceivers c => some (k.dropReceivers c)
  | .changeDisk disk => some { k with disk }
  | .restart => some k.restart

end Kernel

end DbClinic.Server
