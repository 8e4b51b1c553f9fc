import DbClinic.Mcp.ManagerCalls

/-!
What holds of every session, and the rule of each step of the manager. A request
is sent with a fresh number, to a process that has answered the handshake unless
it is the handshake; a server counts as initialised only while it has such a
process.
-/

namespace DbClinic.Mcp

open DbClinic.Effects List
open DbClinic.Serde (Value)

def Event.sentId : Event → Option UInt64
  | .sent _ _ ⟨_, .number id, _, _⟩ => some id
  | _ => none

def sentIds (trace : List Event) : List UInt64 := trace.filterMap Event.sentId

def Event.isToolCall : Event → Bool
  | .sent _ _ ⟨_, _, _, some (.callTool _)⟩ => true
  | _ => false

def toolCalls (trace : List Event) : List Event := trace.filter Event.isToolCall

def numbered (id : UInt64) (params : McpParams) : JsonRpcRequest McpParams :=
  JsonRpcRequest.new (.number id) params.method (some params)

/-- A process was sent a handshake, and the frame that was read next has the
request's id and a result. -/
def HandshakeDone (decoders : ResponseDecoders) (trace : List Event) (process : Nat) : Prop :=
  ∃ before serverName request payload after response,
    trace = before ++ [.sent serverName process request, .received process payload] ++ after ∧
    request.method = "initialize" ∧ decoders.handshake payload = .ok response ∧
    response.id = request.id ∧ response.error = none ∧ response.result.isSome

/-- Every request but the handshake was sent to a process that had answered it. -/
def SentAfterHandshake (decoders : ResponseDecoders) (trace : List Event) : Prop :=
  ∀ before serverName process request after,
    trace = before ++ .sent serverName process request :: after →
      request.method ≠ "initialize" → HandshakeDone decoders before process

section Traces

variable {decoders : ResponseDecoders} {trace : List Event} {process : Nat}

theorem HandshakeDone.append (h : HandshakeDone decoders trace process) (more : List Event) :
    HandshakeDone decoders (trace ++ more) process := by
  obtain ⟨before, serverName, request, payload, after, response, rfl, hrest⟩ := h
  exact ⟨before, serverName, request, payload, after ++ more, response,
    by rw [append_assoc _ after], hrest⟩

theorem sentAfterHandshake_nil : SentAfterHandshake decoders [] := by
  intro before serverName process request after heq
  simp at heq

theorem SentAfterHandshake.snoc (h : SentAfterHandshake decoders trace) {event : Event}
    (hevent : ∀ serverName process request, event = .sent serverName process request →
      request.method ≠ "initialize" → HandshakeDone decoders trace process) :
    SentAfterHandshake decoders (trace ++ [event]) := by
  intro before serverName process request after heq hmethod
  rcases eq_nil_or_concat after with rfl | ⟨after, last, rfl⟩
  · obtain ⟨rfl, hlast⟩ := append_inj' heq rfl
    exact hevent _ _ _ (List.cons.inj hlast).1 hmethod
  · have hsplit : trace ++ [event] =
        (before ++ .sent serverName process request :: after) ++ [last] := by
      rw [heq, concat_eq_append, append_assoc]
      rfl
    obtain ⟨rfl, -⟩ := append_inj' hsplit rfl
    exact h before serverName process request after rfl hmethod

@[simp] theorem sentIds_append (trace more : List Event) :
    sentIds (trace ++ more) = sentIds trace ++ sentIds more := filterMap_append

@[simp] theorem toolCalls_append (trace more : List Event) :
    toolCalls (trace ++ more) = toolCalls trace ++ toolCalls more := filter_append ..

@[simp] theorem sentIds_numbered (serverName : String) (id : UInt64) (params : McpParams) :
    sentIds [.sent serverName process (numbered id params)] = [id] := rfl

@[simp] theorem toolCalls_received (payload : List UInt8) :
    toolCalls [.received process payload] = [] := rfl

@[simp] theorem toolCalls_spawned (serverName : String) :
    toolCalls [.spawned serverName process] = [] := rfl

theorem toolCalls_numbered {params : McpParams} (h : ∀ call, params ≠ .callTool call)
    (serverName : String) (id : UInt64) :
    toolCalls [.sent serverName process (numbered id params)] = [] := by
  cases params with
  | callTool call => exact absurd rfl (h call)
  | _ => rfl

end Traces

/-- A number that is larger than those sent so far, unless it is the last one. -/
def Fresh (id : UInt64) (trace : List Event) : Prop :=
  ∀ sent ∈ sentIds trace, sent < id ∨ id = u64Max

structure Sound (decoders : ResponseDecoders) (manager : McpServerManager) (trace : List Event) :
    Prop where
  ready : ∀ serverName server, manager.servers.get serverName = some server →
    server.initialized = true →
      ∃ process, server.process = some process ∧ HandshakeDone decoders trace process
  sent : SentAfterHandshake decoders trace
  ids : (sentIds trace).Pairwise fun earlier later => earlier < later ∨ later = u64Max
  next : Fresh manager.nextRequestId trace

structure Running (decoders : ResponseDecoders) (old : List Event)
    (index : KeyMap String ToolRoute) (calls : List Event) (manager : McpServerManager)
    (trace : List Event) : Prop where
  sound : Sound decoders manager trace
  since : old <+: trace
  routes : manager.toolIndex = index
  calls : toolCalls trace = calls

def ServerReady (decoders : ResponseDecoders) (serverName : String) (process : Nat)
    (manager : McpServerManager) (trace : List Event) : Prop :=
  ∃ server, manager.servers.get serverName = some server ∧ server.process = some process ∧
    server.initialized = true ∧ HandshakeDone decoders trace process

/-- A statement about the manager and the trace, as one about the session. -/
def Holds {W : Type} (A : McpServerManager → List Event → Prop) (s : Session W) : Prop :=
  A s.manager s.trace

section Facts

variable {decoders : ResponseDecoders} {old : List Event} {index : KeyMap String ToolRoute}
  {calls : List Event} {manager : McpServerManager} {trace : List Event}

variable {id : UInt64} {params : McpParams} {process : Nat}

theorem saturatingSucc_fresh (h : Fresh id trace) :
    Fresh (saturatingSucc id) trace ∧ (id < saturatingSucc id ∨ saturatingSucc id = u64Max) := by
  unfold saturatingSucc
  by_cases hmax : id = u64Max
  · rw [if_pos hmax]
    exact ⟨h, .inr hmax⟩
  · rw [if_neg hmax]
    have hlt : id < id + 1 := by
      have hne : id.toNat ≠ 18446744073709551615 := fun heq => hmax (UInt64.toNat_inj.mp heq)
      have hbound := id.toNat_lt
      rw [UInt64.lt_iff_toNat_lt, UInt64.toNat_add]
      simp only [UInt64.toNat_one]
      omega
    refine ⟨fun sent hsent => ?_, .inl hlt⟩
    rcases h sent hsent with hsent | hmax'
    · exact .inl (UInt64.lt_trans hsent hlt)
    · exact absurd hmax' hmax

theorem Running.setServer (h : Running decoders old index calls manager trace)
    {serverName : String} {server : ManagedMcpServer}
    (hserver : server.initialized = true →
      ∃ process, server.process = some process ∧ HandshakeDone decoders trace process) :
    Running decoders old index calls (manager.setServer serverName server) trace where
  sound := {
    ready := by
      intro other found hfound hinit
      rw [McpServerManager.setServer, KeyMap.get_update] at hfound
      split at hfound
      · obtain ⟨_, -, rfl⟩ := Option.map_eq_some_iff.mp hfound
        exact hserver hinit
      · exact h.sound.ready other found hfound hinit
    sent := h.sound.sent
    ids := h.sound.ids
    next := h.sound.next }
  since := h.since
  routes := h.routes
  calls := h.calls

theorem Running.nextId (h : Running decoders old index calls manager trace) :
    Running decoders old index calls
      { manager with nextRequestId := saturatingSucc manager.nextRequestId } trace where
  sound := { h.sound with next := (saturatingSucc_fresh h.sound.next).1 }
  since := h.since
  routes := h.routes
  calls := h.calls

/-- What a number is that was taken and is not used yet. -/
def Taken (id : UInt64) (manager : McpServerManager) (trace : List Event) : Prop :=
  Fresh id trace ∧ (id < manager.nextRequestId ∨ manager.nextRequestId = u64Max)

theorem Sound.sendNumbered (h : Sound decoders manager trace) (hid : Taken id manager trace)
    (hproc : params.method ≠ "initialize" → HandshakeDone decoders trace process)
    (serverName : String) :
    Sound decoders manager (trace ++ [.sent serverName process (numbered id params)]) where
  ready name server hserver hinit := by
    obtain ⟨process, hproc, hdone⟩ := h.ready name server hserver hinit
    exact ⟨process, hproc, hdone.append _⟩
  sent := by
    refine h.sent.snoc ?_
    intro _ _ request heq hmethod
    cases heq
    exact hproc hmethod
  ids := by
    rw [sentIds_append, sentIds_numbered, pairwise_append]
    refine ⟨h.ids, pairwise_singleton _ _, ?_⟩
    intro earlier hearlier later hlater
    obtain rfl := mem_singleton.mp hlater
    exact hid.1 earlier hearlier
  next := by
    intro sent hsent
    rw [sentIds_append, sentIds_numbered] at hsent
    rcases mem_append.mp hsent with hsent | hsent
    · exact h.next sent hsent
    · obtain rfl := mem_singleton.mp hsent
      exact hid.2

theorem Sound.other (h : Sound decoders manager trace) {event : Event}
    (hevent : sentIds [event] = [])
    (hsent : ∀ serverName process request, event ≠ .sent serverName process request) :
    Sound decoders manager (trace ++ [event]) where
  ready name server hserver hinit := by
    obtain ⟨process, hproc, hdone⟩ := h.ready name server hserver hinit
    exact ⟨process, hproc, hdone.append _⟩
  sent := h.sent.snoc fun _ _ _ heq => absurd heq (hsent _ _ _)
  ids := by
    rw [sentIds_append, hevent, append_nil]
    exact h.ids
  next := by
    intro sent hmem
    rw [sentIds_append, hevent, append_nil] at hmem
    exact h.next sent hmem

theorem Running.sendNumbered (h : Running decoders old index calls manager trace)
    (hid : Taken id manager trace)
    (hproc : params.method ≠ "initialize" → HandshakeDone decoders trace process)
    (serverName : String) :
    Running decoders old index
      (calls ++ toolCalls [.sent serverName process (numbered id params)]) manager
      (trace ++ [.sent serverName process (numbered id params)]) where
  sound := h.sound.sendNumbered hid hproc serverName
  since := h.since.trans (prefix_append _ _)
  routes := h.routes
  calls := by rw [toolCalls_append, h.calls]

theorem Running.received (h : Running decoders old index calls manager trace) (process : Nat)
    (payload : List UInt8) :
    Running decoders old index calls manager (trace ++ [.received process payload]) where
  sound := h.sound.other rfl fun _ _ _ => Event.noConfusion
  since := h.since.trans (prefix_append _ _)
  routes := h.routes
  calls := by rw [toolCalls_append, toolCalls_received, append_nil, h.calls]

theorem Running.spawned (h : Running decoders old index calls manager trace) (serverName : String)
    (process : Nat) :
    Running decoders old index calls manager (trace ++ [.spawned serverName process]) where
  sound := h.sound.other rfl fun _ _ _ => Event.noConfusion
  since := h.since.trans (prefix_append _ _)
  routes := h.routes
  calls := by rw [toolCalls_append, toolCalls_spawned, append_nil, h.calls]

end Facts

section Rules

variable {W α T : Type} {A : McpServerManager → List Event → Prop}

variable {E : Session W → Prop} {Q : α → Session W → Prop}

theorem triple_exact {m : ManagerM W α} (h : ∀ manager trace, A manager trace →
      Triple (fun s : Session W => s.manager = manager ∧ s.trace = trace) m Q E) :
    Triple (Holds A) m Q E := by
  intro s hs
  exact h s.manager s.trace hs s ⟨rfl, rfl⟩

theorem fail_spec (reason : McpServerManagerError) :
    Triple (Holds A) (fail reason : ManagerM W α) Q (Holds A) := Triple.throw fun _ hs => hs

theorem liftIo_spec (r : Except IoError α) :
    Triple (Holds A) (liftIo r : ManagerM W α) (fun _ => Holds A) (Holds A) := by
  cases r with
  | ok a => exact Triple.pure fun _ hs => hs
  | error error => exact fail_spec _

theorem observe_spec (f : W → α × W) :
    Triple (Holds A) (observe f : ManagerM W α) (fun _ => Holds A) E :=
  Triple.modifyGet fun _ hs => hs

theorem lookup_spec (f : Session W → α) :
    Triple (Holds A) (lookup f) (fun a s => a = f s ∧ Holds A s) E :=
  Triple.modifyGet fun _ hs => ⟨rfl, hs⟩

theorem serverMut_spec (serverName : String) :
    Triple (Holds A) (serverMut serverName : ManagerM W _)
      (fun server => Holds fun manager trace =>
        manager.servers.get serverName = some server ∧ A manager trace) (Holds A) := by
  refine Triple.bind (lookup_spec _) fun found => ?_
  cases found with
  | some server => exact Triple.pure fun s hs => ⟨hs.1.symm, hs.2⟩
  | none => exact Triple.throw fun s hs => hs.2

theorem setServer_spec {B : McpServerManager → List Event → Prop} {serverName : String}
    {server : ManagedMcpServer}
    (h : ∀ manager trace, A manager trace → B (manager.setServer serverName server) trace) :
    Triple (Holds A) (setServer serverName server : ManagerM W Unit) (fun _ => Holds B) E := by
  unfold setServer updateManager
  exact Triple.modifyGet fun s hs => h _ _ hs

theorem processOf_spec (serverName method missing : String) :
    Triple (Holds A) (processOf serverName method missing : ManagerM W Nat)
      (fun process => Holds fun manager trace => (∃ server,
        manager.servers.get serverName = some server ∧ server.process = some process) ∧
          A manager trace) (Holds A) := by
  refine Triple.bind (serverMut_spec serverName) fun server => ?_
  cases hproc : server.process with
  | some process => exact Triple.pure fun s hs => ⟨⟨server, hs.1, hproc⟩, hs.2⟩
  | none => exact Triple.throw fun s hs => hs.2

theorem shutdownProcess_spec (env : Environment W) (process : Nat) :
    Triple (Holds A) (shutdownProcess env process) (fun _ => Holds A) (Holds A) := by
  refine Triple.bind (observe_spec _) fun exited => ?_
  cases exited with
  | error error => exact Triple.pure fun _ hs => hs
  | ok exited =>
    cases exited with
    | true => exact observe_spec _
    | false =>
      refine Triple.bind (observe_spec _) fun killed => ?_
      cases killed with
      | ok done => exact observe_spec _
      | error error =>
        dsimp only
        split
        · exact observe_spec _
        · exact Triple.pure fun _ hs => hs

theorem hasExited_spec (env : Environment W) (process : Nat) :
    Triple (Holds A) (hasExited env process) (fun _ => Holds A) (Holds A) :=
  Triple.bind (observe_spec _) liftIo_spec

end Rules

end DbClinic.Mcp
