import DbClinic.Mcp.ManagerSteps

/-!
The rules of a request and of the readiness of a server. A response that is
accepted answers the very request that was sent before it, and a server that is
ready has a process that has answered the handshake.
-/

namespace DbClinic.Mcp

open DbClinic.Effects
open DbClinic.Serde (Value)

/-- A response came, since an old trace, from the frame that was read right after
a request with its id. -/
def Replied {T : Type} (decode : List UInt8 → Except SerdeError (JsonRpcResponse T))
    (old trace : List Event) (params : McpParams) (response : JsonRpcResponse T) : Prop :=
  ∃ before serverName process id payload after,
    trace = before ++ [.sent serverName process (numbered id params), .received process payload] ++
      after ∧
    old <+: before ∧ decode payload = .ok response ∧ response.id = .number id

def Stable (F : List Event → Prop) : Prop := ∀ trace more, F trace → F (trace ++ more)

theorem stable_replied {T : Type} (decode : List UInt8 → Except SerdeError (JsonRpcResponse T))
    (old : List Event) (params : McpParams) (response : JsonRpcResponse T) :
    Stable fun trace => Replied decode old trace params response := by
  rintro trace more ⟨before, serverName, process, id, payload, after, rfl, hrest⟩
  exact ⟨before, serverName, process, id, payload, after ++ more,
    by rw [List.append_assoc _ after], hrest⟩

section Requests

variable {W T : Type} (env : Environment W)
  (decode : List UInt8 → Except SerdeError (JsonRpcResponse T))

theorem acceptResponse_eq {method : String} {id : JsonRpcId} {payload : List UInt8}
    {response : JsonRpcResponse T} (h : acceptResponse decode method id payload = .ok response) :
    decode payload = .ok response ∧ response.id = id := by
  unfold acceptResponse at h
  split at h
  · cases h
  · rename_i decoded hdecode
    split at h
    · cases h
    split at h
    · cases h
    · rename_i hid
      cases h
      exact ⟨hdecode, not_not.mp hid⟩

/-- The trace after a request: it is sent, and a frame may be read. -/
def AfterRequest (trace : List Event) (serverName : String) (process : Nat) (id : UInt64)
    (params : McpParams) (after : List Event) : Prop :=
  after = trace ++ [.sent serverName process (numbered id params)] ∨
    ∃ payload, after =
      trace ++ [.sent serverName process (numbered id params), .received process payload]

theorem request_spec (serverName : String) (process : Nat) (id : UInt64) (params : McpParams)
    (timeoutMs : Nat) (manager : McpServerManager) (trace : List Event)
    (E : Session W → Prop) :
    Triple (fun s => s.manager = manager ∧ s.trace = trace)
      (request env decode serverName process (.number id) params timeoutMs)
      (fun outcome s => s.manager = manager ∧
        AfterRequest trace serverName process id params s.trace ∧
        ∀ response, outcome = some (.ok response) → ∃ payload,
          s.trace = trace ++
            [.sent serverName process (numbered id params), .received process payload] ∧
          decode payload = .ok response ∧ response.id = .number id) E := by
  have hsent : Triple (fun s : Session W => s.manager = manager ∧ s.trace = trace)
      (record (.sent serverName process (numbered id params)))
      (fun _ s => s.manager = manager ∧
        s.trace = trace ++ [.sent serverName process (numbered id params)]) E := by
    unfold record
    refine Triple.modifyGet ?_
    rintro s ⟨rfl, rfl⟩
    exact ⟨rfl, rfl⟩
  refine Triple.bind hsent fun _ => ?_
  refine Triple.bind (R := fun _ s => _) (Q := fun _ s => s.manager = manager ∧
    s.trace = trace ++ [.sent serverName process (numbered id params)]) ?_ fun outcome => ?_
  · unfold observe
    exact Triple.modifyGet fun s hs => hs
  · cases outcome with
    | timedOut => exact Triple.pure fun s hs => ⟨hs.1, .inl hs.2, fun _ h => by cases h⟩
    | failed error => exact Triple.pure fun s hs => ⟨hs.1, .inl hs.2, fun _ h => by cases h⟩
    | frame payload =>
      have hreceived : Triple (fun s : Session W => s.manager = manager ∧
          s.trace = trace ++ [.sent serverName process (numbered id params)])
          (record (.received process payload))
          (fun _ s => s.manager = manager ∧ s.trace = trace ++
            [.sent serverName process (numbered id params), .received process payload]) E := by
        unfold record
        refine Triple.modifyGet ?_
        rintro s ⟨hmanager, htrace⟩
        refine ⟨hmanager, ?_⟩
        simp only [htrace, List.append_assoc]
        rfl
      refine Triple.bind hreceived fun _ => Triple.pure fun s hs => ?_
      refine ⟨hs.1, .inr ⟨payload, hs.2⟩, fun response hresponse => ?_⟩
      exact ⟨payload, hs.2, acceptResponse_eq decode (Option.some.inj hresponse)⟩

theorem runProcessRequest_spec (serverName : String) (process : Nat) (id : UInt64)
    (params : McpParams) (timeoutMs : Nat) (manager : McpServerManager) (trace : List Event) :
    Triple (fun s => s.manager = manager ∧ s.trace = trace)
      (runProcessRequest env decode serverName process (.number id) params timeoutMs)
      (fun response s => s.manager = manager ∧ ∃ payload,
        s.trace = trace ++
          [.sent serverName process (numbered id params), .received process payload] ∧
        decode payload = .ok response ∧ response.id = .number id)
      (fun s => s.manager = manager ∧
        AfterRequest trace serverName process id params s.trace) := by
  refine Triple.bind (request_spec env decode serverName process id params timeoutMs manager trace _)
    fun outcome => ?_
  rcases outcome with _ | ⟨error | response⟩
  · exact Triple.throw fun s hs => ⟨hs.1, hs.2.1⟩
  · dsimp only
    split
    · exact Triple.throw fun s hs => ⟨hs.1, hs.2.1⟩
    · exact Triple.throw fun s hs => ⟨hs.1, hs.2.1⟩
  · exact Triple.pure fun s hs => ⟨hs.1, hs.2.2 response rfl⟩

end Requests

/-- The trace ends with a request and the frame that its response came from. -/
def JustReplied {T : Type} (decode : List UInt8 → Except SerdeError (JsonRpcResponse T))
    (old trace : List Event) (process : Nat) (params : McpParams) (response : JsonRpcResponse T) :
    Prop :=
  ∃ before serverName id payload,
    trace = before ++ [.sent serverName process (numbered id params), .received process payload] ∧
    old <+: before ∧ decode payload = .ok response ∧ response.id = .number id

section Replies

variable {W T : Type} {decoders : ResponseDecoders} {old : List Event}
  {index : KeyMap String ToolRoute} {calls : List Event} {manager : McpServerManager}
  {trace : List Event} {decode : List UInt8 → Except SerdeError (JsonRpcResponse T)}

theorem JustReplied.replied {process : Nat} {params : McpParams} {response : JsonRpcResponse T}
    (h : JustReplied decode old trace process params response) :
    Replied decode old trace params response := by
  obtain ⟨before, serverName, id, payload, rfl, hrest⟩ := h
  exact ⟨before, serverName, process, id, payload, [], (List.append_nil _).symm, hrest⟩

theorem JustReplied.handshakeDone {process : Nat} {params : McpInitializeParams}
    {response : JsonRpcResponse McpInitializeResult}
    (h : JustReplied decoders.handshake old trace process (.handshake params) response)
    (herror : response.error = none) (hres : response.result.isSome) :
    HandshakeDone decoders trace process := by
  obtain ⟨before, serverName, id, payload, rfl, -, hdecode, hid⟩ := h
  exact ⟨before, serverName, _, payload, [], response, (List.append_nil _).symm, rfl, hdecode, hid,
    herror, hres⟩

/-- What a session is like when a request is about to be sent. -/
structure Sending (decoders : ResponseDecoders) (old : List Event)
    (index : KeyMap String ToolRoute) (calls : List Event) (params : McpParams) (process : Nat)
    (id : UInt64) (manager : McpServerManager) (trace : List Event) : Prop where
  running : Running decoders old index calls manager trace
  taken : Taken id manager trace
  process : params.method ≠ "initialize" → HandshakeDone decoders trace process

theorem Sending.after {params : McpParams} {process : Nat} {id : UInt64}
    (h : Sending decoders old index calls params process id manager trace)
    {serverName : String} {after : List Event}
    (hafter : AfterRequest trace serverName process id params after) :
    Running decoders old index
      (calls ++ toolCalls [.sent serverName process (numbered id params)]) manager after := by
  have hsent := h.running.sendNumbered h.taken h.process serverName
  rcases hafter with rfl | ⟨payload, rfl⟩
  · exact hsent
  · have hreceived := hsent.received process payload
    rw [List.append_assoc] at hreceived
    exact hreceived

theorem runProcessRequest_running (env : Environment W) {params : McpParams}
    (hcall : ∀ call, params ≠ .callTool call) {B : McpServerManager → Prop}
    {F : List Event → Prop} (hF : Stable F) (serverName : String) (process : Nat) (id : UInt64)
    (timeoutMs : Nat) :
    Triple (Holds fun manager trace =>
        Sending decoders old index calls params process id manager trace ∧ B manager ∧ F trace)
      (runProcessRequest env decode serverName process (.number id) params timeoutMs)
      (fun response => Holds fun (manager : McpServerManager) trace =>
        Running decoders old index calls manager trace ∧ B manager ∧ F trace ∧
          JustReplied decode old trace process params response)
      (Holds (Running decoders old index calls)) := by
  refine triple_exact fun manager trace hpre => ?_
  obtain ⟨hsending, hB, hFtrace⟩ := hpre
  have hcalls : calls ++ toolCalls [.sent serverName process (numbered id params)] = calls := by
    rw [toolCalls_numbered hcall, List.append_nil]
  refine (runProcessRequest_spec env decode serverName process id params timeoutMs manager
    trace).conseq (fun s hs => hs) ?_ ?_
  · rintro response s ⟨rfl, payload, htrace, hdecode, hid⟩
    refine ⟨?_, hB, ?_, trace, serverName, id, payload, htrace, hsending.running.since, hdecode, hid⟩
    · have hafter : AfterRequest trace serverName process id params s.trace := .inr ⟨payload, htrace⟩
      have hrunning := hsending.after hafter
      rwa [hcalls] at hrunning
    · rw [htrace]
      exact hF trace _ hFtrace
  · rintro s ⟨rfl, hafter⟩
    have hrunning := hsending.after hafter
    rwa [hcalls] at hrunning

end Replies

section Ready

variable {W T α : Type} (env : Environment W) {decoders : ResponseDecoders} {old : List Event}
  {index : KeyMap String ToolRoute} {calls : List Event}

theorem resetServer_spec (serverName : String) :
    Triple (Holds (Running decoders old index calls)) (resetServer env serverName)
      (fun _ => Holds (Running decoders old index calls))
      (Holds (Running decoders old index calls)) := by
  refine Triple.bind (serverMut_spec serverName) fun server => ?_
  have hcleared (manager : McpServerManager) (trace : List Event)
      (h : manager.servers.get serverName = some server ∧
        Running decoders old index calls manager trace) :
      Running decoders old index calls
        (manager.setServer serverName { server with initialized := false, process := none }) trace :=
    h.2.setServer fun hfalse => by cases hfalse
  refine Triple.bind (setServer_spec hcleared) fun _ => ?_
  cases server.process with
  | some process =>
    exact Triple.bind (shutdownProcess_spec env process) fun _ => Triple.pure fun _ hs => hs
  | none => exact Triple.pure fun _ hs => hs

theorem resetIf_spec (condition : Bool) (serverName : String) :
    Triple (Holds (Running decoders old index calls)) (resetIf env condition serverName)
      (fun _ => Holds (Running decoders old index calls))
      (Holds (Running decoders old index calls)) := by
  cases condition with
  | true => exact resetServer_spec env serverName
  | false => exact Triple.pure fun _ hs => hs

theorem serverProcessExited_spec {A : McpServerManager → List Event → Prop} (serverName : String) :
    Triple (Holds A) (serverProcessExited env serverName) (fun _ => Holds A) (Holds A) := by
  refine Triple.bind (serverMut_spec serverName) fun server => ?_
  cases server.process with
  | some process =>
    exact (hasExited_spec env process).conseq (fun _ hs => hs.2) (fun _ _ hs => hs)
      fun _ hs => hs
  | none => exact Triple.pure fun _ hs => hs.2

theorem failAfterReset_spec {Q : α → Session W → Prop} (serverName : String)
    (error : McpServerManagerError) :
    Triple (Holds (Running decoders old index calls)) (failAfterReset env serverName error) Q
      (Holds (Running decoders old index calls)) :=
  Triple.bind (resetIf_spec env _ serverName) fun _ => fail_spec error

theorem takeRequestId_spec {B : McpServerManager → Prop} {F : List Event → Prop}
    {E : Session W → Prop} (hB : ∀ manager next, B manager → B { manager with nextRequestId := next }) :
    Triple (Holds fun manager trace =>
        Running decoders old index calls manager trace ∧ B manager ∧ F trace)
      (takeRequestId : ManagerM W JsonRpcId)
      (fun id s => ∃ number, id = .number number ∧ Holds (fun manager trace =>
        Running decoders old index calls manager trace ∧ Taken number manager trace ∧ B manager ∧
          F trace) s) E := by
  refine Triple.bind (lookup_spec _) fun id => ?_
  refine Triple.bind (Q := fun _ => Holds fun manager trace =>
    Running decoders old index calls manager trace ∧ Taken id manager trace ∧ B manager ∧ F trace)
    ?_ fun _ => Triple.pure fun s hs => ⟨id, rfl, hs⟩
  unfold updateManager
  refine Triple.modifyGet ?_
  rintro s ⟨rfl, hrunning, hBs, hFs⟩
  exact ⟨hrunning.nextId, ⟨hrunning.sound.next, (saturatingSucc_fresh hrunning.sound.next).2⟩,
    hB _ _ hBs, hFs⟩

theorem spawnIfNeeded_spec (serverName : String) :
    Triple (Holds (Running decoders old index calls)) (spawnIfNeeded env serverName)
      (fun _ => Holds (Running decoders old index calls))
      (Holds (Running decoders old index calls)) := by
  refine Triple.bind (serverMut_spec serverName) fun server => ?_
  cases server.process with
  | some process => exact Triple.pure fun _ hs => hs.2
  | none =>
    dsimp only
    refine Triple.bind (lookup_spec _) fun process => ?_
    refine Triple.bind (Q := fun _ => Holds (Running decoders old index calls)) ?_ fun spawned => ?_
    · exact (observe_spec _).conseq (fun _ hs => hs.2.2) (fun _ _ hs => hs) fun _ hs => hs
    refine Triple.bind (liftIo_spec spawned) fun _ => ?_
    refine Triple.bind (Q := fun _ => Holds (Running decoders old index calls)) ?_ fun _ => ?_
    · exact Triple.modifyGet fun s hs => Running.spawned hs serverName process
    · exact setServer_spec fun manager trace h => h.setServer fun hfalse => by cases hfalse

def HasProcess (serverName : String) (process : Nat) (manager : McpServerManager) : Prop :=
  ∃ server, manager.servers.get serverName = some server ∧ server.process = some process

def IsReady (decoders : ResponseDecoders) (serverName : String) (manager : McpServerManager)
    (trace : List Event) : Prop :=
  ∃ process, ServerReady decoders serverName process manager trace

theorem acceptHandshake_spec (serverName : String) (process : Nat) (params : McpInitializeParams)
    (response : JsonRpcResponse McpInitializeResult) :
    Triple (Holds fun manager trace => Running decoders old index calls manager trace ∧
        HasProcess serverName process manager ∧
        JustReplied decoders.handshake old trace process (.handshake params) response)
      (acceptHandshake env serverName response)
      (fun _ => Holds fun manager trace => Running decoders old index calls manager trace ∧
        IsReady decoders serverName manager trace)
      (Holds (Running decoders old index calls)) := by
  unfold acceptHandshake
  split
  · exact Triple.throw fun s hs => hs.1
  · exact Triple.bind ((resetServer_spec env serverName).conseq (fun s hs => hs.1)
      (fun _ _ hs => hs) fun _ hs => hs) fun _ => fail_spec _
  · rename_i result herror hres
    refine Triple.bind ((serverMut_spec serverName).weaken fun s hs => hs.1) fun server => ?_
    refine setServer_spec ?_
    rintro manager trace ⟨hserver, hrunning, ⟨other, hother, hproc⟩, hreplied⟩
    obtain rfl : server = other := Option.some.inj (hserver.symm.trans hother)
    have hdone := hreplied.handshakeDone herror (by rw [hres]; rfl)
    refine ⟨hrunning.setServer fun _ => ⟨process, hproc, hdone⟩, process,
      { server with initialized := true }, ?_, hproc, rfl, hdone⟩
    rw [McpServerManager.setServer, KeyMap.get_update, if_pos rfl, hserver]
    rfl

theorem readyRound_spec (serverName : String)
    {onError : McpServerManagerError → ManagerM W Unit}
    (hError : ∀ error, Triple (Holds (Running decoders old index calls)) (onError error)
      (fun _ => Holds fun manager trace => Running decoders old index calls manager trace ∧
        IsReady decoders serverName manager trace)
      (Holds (Running decoders old index calls))) :
    Triple (Holds (Running decoders old index calls))
      (readyRound env decoders serverName onError)
      (fun _ => Holds fun manager trace => Running decoders old index calls manager trace ∧
        IsReady decoders serverName manager trace)
      (Holds (Running decoders old index calls)) := by
  refine Triple.bind (spawnIfNeeded_spec env serverName) fun _ => ?_
  refine Triple.bind (serverMut_spec serverName) fun server => ?_
  split
  · rename_i hinit
    refine Triple.pure fun s hs => ⟨hs.2, ?_⟩
    obtain ⟨process, hproc, hdone⟩ := hs.2.sound.ready serverName server hs.1 hinit
    exact ⟨process, server, hs.1, hproc, hinit, hdone⟩
  · have htake := @takeRequestId_spec W decoders old index calls (fun _ => True) (fun _ => True)
      (Holds (Running decoders old index calls)) fun _ _ h => h
    refine Triple.bind (htake.conseq (fun s hs => ⟨hs.2, trivial, trivial⟩) (fun _ _ hs => hs)
      fun _ hs => hs) fun id => ?_
    refine Triple.named fun number => Triple.given fun hid => ?_
    subst hid
    refine Triple.bind ((processOf_spec serverName _ _).weaken fun s hs => hs.1) fun process => ?_
    have hcall : ∀ call, McpParams.handshake defaultInitializeParams ≠ .callTool call :=
      fun _ => McpParams.noConfusion
    have hstable : Stable fun _ => True := fun _ _ _ => trivial
    have hrun := @runProcessRequest_running W _ decoders old index calls decoders.handshake env _ hcall
      (HasProcess serverName process) _ hstable serverName process number initializeTimeoutMs
    refine Triple.bind (hrun.conseq ?_ (fun _ _ hs => hs) fun _ hs => hs).attempt fun reply => ?_
    · rintro s ⟨hproc, hrunning, htaken, -, -⟩
      exact ⟨⟨hrunning, htaken, fun hmethod => absurd rfl hmethod⟩, hproc, trivial⟩
    · cases reply with
      | ok response =>
        exact (acceptHandshake_spec env serverName process _ response).conseq
          (fun s hs => ⟨hs.1, hs.2.1, hs.2.2.2⟩) (fun _ _ hs => hs) fun _ hs => hs
      | error error => exact hError error

theorem readyLoop_spec (serverName : String) (retries : Nat) :
    Triple (Holds (Running decoders old index calls)) (readyLoop env decoders serverName retries)
      (fun _ => Holds fun manager trace => Running decoders old index calls manager trace ∧
        IsReady decoders serverName manager trace)
      (Holds (Running decoders old index calls)) := by
  induction retries with
  | zero => exact readyRound_spec env serverName fun error => failAfterReset_spec env serverName error
  | succ retries ih =>
    refine readyRound_spec env serverName fun error => ?_
    split
    · exact Triple.bind (resetServer_spec env serverName) fun _ => ih
    · exact failAfterReset_spec env serverName error

theorem ensureServerReady_spec (serverName : String) :
    Triple (Holds (Running decoders old index calls)) (ensureServerReady env decoders serverName)
      (fun _ => Holds fun manager trace => Running decoders old index calls manager trace ∧
        IsReady decoders serverName manager trace)
      (Holds (Running decoders old index calls)) := by
  refine Triple.bind (serverProcessExited_spec env serverName) fun exited => ?_
  refine Triple.bind (resetIf_spec env exited serverName) fun _ => ?_
  exact readyLoop_spec env serverName 1

end Ready

end DbClinic.Mcp
