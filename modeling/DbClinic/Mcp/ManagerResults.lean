import DbClinic.Mcp.ManagerReady

/-!
The rules of the calls of the manager, up to a whole run of calls. What a list
collects stays accounted for by the replies that its pages came from.
-/

namespace DbClinic.Mcp

open DbClinic.Effects
open DbClinic.Serde (Value)

section Lists

variable {W T α : Type} (env : Environment W) {decoders : ResponseDecoders} {old : List Event}
  {index : KeyMap String ToolRoute} {calls : List Event}

def ReadyWith (decoders : ResponseDecoders) (old : List Event) (index : KeyMap String ToolRoute)
    (calls : List Event) (serverName : String) (F : List Event → Prop)
    (manager : McpServerManager) (trace : List Event) : Prop :=
  Running decoders old index calls manager trace ∧ IsReady decoders serverName manager trace ∧
    F trace

variable {serverName : String} {F : List Event → Prop} {s : Session W} {server : ManagedMcpServer}

variable {manager : McpServerManager} {trace : List Event}
variable {A : McpServerManager → List Event → Prop}
variable {decode : List UInt8 → Except SerdeError (JsonRpcResponse T)} {params : McpParams}
variable {process : Nat} {qualifiedToolName : String} {session : Session W}

theorem ReadyWith.mono {G : List Event → Prop}
    (h : ReadyWith decoders old index calls serverName F manager trace) (hFG : F trace → G trace) :
    ReadyWith decoders old index calls serverName G manager trace :=
  ⟨h.1, h.2.1, hFG h.2.2⟩

def KnownReady (serverName : String) (process : Nat) (manager : McpServerManager) : Prop :=
  ∃ server, manager.servers.get serverName = some server ∧ server.process = some process ∧
    server.initialized = true

theorem resultOf_spec (serverName method : String) (response : JsonRpcResponse T) :
    Triple (Holds A) (resultOf serverName method response : ManagerM W T)
      (fun result s => response.result = some result ∧ Holds A s) (Holds A) := by
  unfold resultOf
  split
  · exact fail_spec _
  · exact fail_spec _
  · rename_i result _ hres
    exact Triple.pure fun s hs => ⟨hres, hs⟩

theorem readyWith_iff :
    ReadyWith decoders old index calls serverName F manager trace ↔
      ∃ process, Running decoders old index calls manager trace ∧
        KnownReady serverName process manager ∧ F trace ∧ HandshakeDone decoders trace process := by
  constructor
  · rintro ⟨hrunning, ⟨process, server, hserver, hproc, hinit, hdone⟩, hF⟩
    exact ⟨process, hrunning, ⟨server, hserver, hproc, hinit⟩, hF, hdone⟩
  · rintro ⟨process, hrunning, ⟨server, hserver, hproc, hinit⟩, hF, hdone⟩
    exact ⟨hrunning, ⟨process, server, hserver, hproc, hinit, hdone⟩, hF⟩

theorem stable_and_handshakeDone (hF : Stable F) (process : Nat) :
    Stable fun trace => F trace ∧ HandshakeDone decoders trace process :=
  fun trace more h => ⟨hF trace more h.1, h.2.append more⟩

theorem requestResult_spec (hcall : ∀ call, params ≠ .callTool call) (hF : Stable F)
    (serverName : String) :
    Triple (Holds (ReadyWith decoders old index calls serverName F))
      (requestResult env decode serverName params)
      (fun result s => ∃ response, response.result = some result ∧
        Holds (ReadyWith decoders old index calls serverName fun trace =>
          F trace ∧ Replied decode old trace params response) s)
      (Holds (Running decoders old index calls)) := by
  refine Triple.conseq ?_ (fun s hs => readyWith_iff.mp hs) (fun _ _ hs => hs) fun _ hs => hs
  refine Triple.named fun process => ?_
  have hstable : Stable fun trace => F trace ∧ HandshakeDone decoders trace process :=
    stable_and_handshakeDone hF process
  have htake := @takeRequestId_spec W decoders old index calls (KnownReady serverName process)
    (fun trace => F trace ∧ HandshakeDone decoders trace process)
    (Holds (Running decoders old index calls)) fun _ _ h => h
  refine Triple.bind htake fun id => Triple.named fun number => Triple.given fun hid => ?_
  subst hid
  refine Triple.bind ((processOf_spec serverName _ _).weaken fun s hs => hs.1) fun other => ?_
  have hrun := @runProcessRequest_running W _ decoders old index calls decode env _ hcall
    (KnownReady serverName process) _ hstable serverName other number listToolsTimeoutMs
  refine Triple.bind (hrun.conseq ?_ (fun _ _ hs => hs) fun _ hs => hs) fun response => ?_
  · rintro s ⟨⟨server, hserver, hother⟩, hrunning, htaken, hknown, hFs, hdone⟩
    obtain ⟨found, hfound, hproc, -⟩ := id hknown
    obtain rfl : server = found := Option.some.inj (hserver.symm.trans hfound)
    obtain rfl : other = process := Option.some.inj (hother.symm.trans hproc)
    exact ⟨⟨hrunning, htaken, fun _ => hdone⟩, hknown, hFs, hdone⟩
  · refine ((resultOf_spec serverName _ response).weaken fun s hs => hs.1).conseq
      (fun _ hs => hs) ?_ fun _ hs => hs
    rintro result s ⟨hres, hrunning, hknown, ⟨hFs, hdone⟩, hreplied⟩
    exact ⟨response, hres,
      readyWith_iff.mpr ⟨process, hrunning, hknown, ⟨hFs, hreplied.replied⟩, hdone⟩⟩

theorem collectPages_spec {A : Type} {page : Option String → ManagerM W (List A × Option String)}
    {I : A → List Event → Prop} (hI : ∀ item, Stable (I item)) (hpage : ∀ cursor F, Stable F →
      Triple (Holds (ReadyWith decoders old index calls serverName F)) (page cursor)
        (fun listed => Holds (ReadyWith decoders old index calls serverName fun trace =>
          F trace ∧ ∀ item ∈ listed.1, I item trace))
        (Holds (Running decoders old index calls))) (fuel : Nat) (cursor : Option String)
    (collected : List A) :
    Triple (Holds (ReadyWith decoders old index calls serverName fun trace =>
        ∀ item ∈ collected, I item trace))
      (collectPages page fuel cursor collected)
      (fun items => Holds (ReadyWith decoders old index calls serverName fun trace =>
        ∀ item ∈ items, I item trace))
      (Holds (Running decoders old index calls)) := by
  induction fuel generalizing cursor collected with
  | zero => exact Triple.throw fun s hs => hs.1
  | succ fuel ih =>
    have hstable : Stable fun trace => ∀ item ∈ collected, I item trace :=
      fun trace more h item hmem => hI item trace more (h item hmem)
    refine Triple.bind (hpage cursor _ hstable) fun listed => ?_
    have happend (s : Session W) (hs : Holds (ReadyWith decoders old index calls serverName
        fun trace => (∀ item ∈ collected, I item trace) ∧ ∀ item ∈ listed.1, I item trace) s) :
        Holds (ReadyWith decoders old index calls serverName fun trace =>
          ∀ item ∈ collected ++ listed.1, I item trace) s := by
      refine ReadyWith.mono hs fun h item hmem => ?_
      rcases List.mem_append.mp hmem with hmem | hmem
      · exact h.1 item hmem
      · exact h.2 item hmem
    split
    · exact (ih _ _).conseq happend (fun _ _ hs => hs) fun _ hs => hs
    · exact Triple.pure happend

theorem withRetry_spec {A : Type} {once : ManagerM W A} {Q : A → Session W → Prop}
    (h : Triple (Holds (Running decoders old index calls)) once Q
      (Holds (Running decoders old index calls))) (serverName : String) (retries : Nat) :
    Triple (Holds (Running decoders old index calls)) (withRetry env serverName once retries) Q
      (Holds (Running decoders old index calls)) := by
  induction retries with
  | zero =>
    refine Triple.bind h.attempt fun r => ?_
    cases r with
    | ok a => exact Triple.pure fun _ hs => hs
    | error error => exact failAfterReset_spec env serverName error
  | succ retries ih =>
    refine Triple.bind h.attempt fun r => ?_
    cases r with
    | ok a => exact Triple.pure fun _ hs => hs
    | error error =>
      dsimp only
      split
      · exact Triple.bind (resetServer_spec env serverName) fun _ => ih
      · exact failAfterReset_spec env serverName error

def ToolReplied (decoders : ResponseDecoders) (old trace : List Event) (tool : McpTool) : Prop :=
  ∃ cursor response result, Replied decoders.listTools old trace (.listTools cursor) response ∧
    response.result = some result ∧ tool ∈ result.tools

def ResourceReplied (decoders : ResponseDecoders) (old trace : List Event)
    (resource : McpResource) : Prop :=
  ∃ cursor response result,
    Replied decoders.listResources old trace (.listResources cursor) response ∧
      response.result = some result ∧ resource ∈ result.resources

theorem stable_toolReplied (tool : McpTool) :
    Stable fun trace => ToolReplied decoders old trace tool := by
  rintro trace more ⟨cursor, response, result, hreplied, hres⟩
  exact ⟨cursor, response, result, stable_replied _ _ _ _ trace more hreplied, hres⟩

theorem stable_resourceReplied (resource : McpResource) :
    Stable fun trace => ResourceReplied decoders old trace resource := by
  rintro trace more ⟨cursor, response, result, hreplied, hres⟩
  exact ⟨cursor, response, result, stable_replied _ _ _ _ trace more hreplied, hres⟩

def ToolOf (decoders : ResponseDecoders) (old : List Event) (serverName : String)
    (tool : ManagedMcpTool) (trace : List Event) : Prop :=
  tool = managedTool serverName tool.tool ∧ ToolReplied decoders old trace tool.tool

theorem stable_toolOf (serverName : String) (tool : ManagedMcpTool) :
    Stable (ToolOf decoders old serverName tool) :=
  fun trace more h => ⟨h.1, stable_toolReplied tool.tool trace more h.2⟩

theorem toolsPage_spec (serverName : String) (cursor : Option String) (hF : Stable F) :
    Triple (Holds (ReadyWith decoders old index calls serverName F))
      (toolsPage env decoders serverName cursor)
      (fun listed => Holds (ReadyWith decoders old index calls serverName fun trace =>
        F trace ∧ ∀ tool ∈ listed.1, ToolOf decoders old serverName tool trace))
      (Holds (Running decoders old index calls)) := by
  have hcall : ∀ call, McpParams.listTools cursor ≠ .callTool call := fun _ => McpParams.noConfusion
  refine Triple.bind (requestResult_spec env hcall hF serverName) fun result => Triple.pure ?_
  rintro s ⟨response, hres, hs⟩
  refine ReadyWith.mono hs fun ⟨hFs, hreplied⟩ => ⟨hFs, fun tool hmem => ?_⟩
  obtain ⟨listed, hlisted, rfl⟩ := List.mem_map.mp hmem
  exact ⟨rfl, cursor, response, result, hreplied, hres, hlisted⟩

theorem resourcesPage_spec (serverName : String) (cursor : Option String) (hF : Stable F) :
    Triple (Holds (ReadyWith decoders old index calls serverName F))
      (resourcesPage env decoders serverName cursor)
      (fun listed => Holds (ReadyWith decoders old index calls serverName fun trace =>
        F trace ∧ ∀ resource ∈ listed.1, ResourceReplied decoders old trace resource))
      (Holds (Running decoders old index calls)) := by
  have hcall : ∀ call, McpParams.listResources cursor ≠ .callTool call :=
    fun _ => McpParams.noConfusion
  refine Triple.bind (requestResult_spec env hcall hF serverName) fun result => Triple.pure ?_
  rintro s ⟨response, hres, hs⟩
  exact ReadyWith.mono hs fun ⟨hFs, hreplied⟩ =>
    ⟨hFs, fun resource hmem => ⟨cursor, response, result, hreplied, hres, hmem⟩⟩

theorem ready_of_isReady
    (h : Holds (fun manager trace => Running decoders old index calls manager trace ∧
      IsReady decoders serverName manager trace) s) (hF : F s.trace) :
    Holds (ReadyWith decoders old index calls serverName F) s := ⟨h.1, h.2, hF⟩

theorem discoverToolsForServer_spec (fuel : Nat) (serverName : String) :
    Triple (Holds (Running decoders old index calls))
      (discoverToolsForServer env decoders fuel serverName)
      (fun tools => Holds fun manager trace => Running decoders old index calls manager trace ∧
        ∀ tool ∈ tools, ToolOf decoders old serverName tool trace)
      (Holds (Running decoders old index calls)) := by
  refine withRetry_spec env ?_ serverName 1
  refine Triple.bind (ensureServerReady_spec env serverName) fun _ => ?_
  refine (collectPages_spec (stable_toolOf serverName)
    (fun cursor _ hF => toolsPage_spec env serverName cursor hF) fuel none []).conseq ?_ ?_
    fun _ hs => hs
  · exact fun s hs => ready_of_isReady hs fun _ hmem => absurd hmem List.not_mem_nil
  · exact fun tools s hs => ⟨hs.1, hs.2.2⟩

theorem listResources_spec (fuel : Nat) (serverName : String) :
    Triple (Holds (Running decoders old index calls))
      (listResources env decoders fuel serverName)
      (fun listed => Holds fun manager trace => Running decoders old index calls manager trace ∧
        ∀ resource ∈ listed.resources, ResourceReplied decoders old trace resource)
      (Holds (Running decoders old index calls)) := by
  refine withRetry_spec env ?_ serverName 1
  refine Triple.bind (ensureServerReady_spec env serverName) fun _ => ?_
  refine Triple.bind ((collectPages_spec stable_resourceReplied
    (fun cursor _ hF => resourcesPage_spec env serverName cursor hF) fuel none []).conseq ?_
    (fun _ _ hs => hs) fun _ hs => hs) fun resources => Triple.pure ?_
  · exact fun s hs => ready_of_isReady hs fun _ hmem => absurd hmem List.not_mem_nil
  · exact fun s hs => ⟨hs.1, hs.2.2⟩

theorem readResource_spec (serverName uri : String) :
    Triple (Holds (Running decoders old index calls))
      (readResource env decoders serverName uri)
      (fun result s => ∃ response, response.result = some result ∧
        Holds (fun manager trace => Running decoders old index calls manager trace ∧
          Replied decoders.readResource old trace (.readResource uri) response) s)
      (Holds (Running decoders old index calls)) := by
  have hcall : ∀ call, McpParams.readResource uri ≠ .callTool call := fun _ => McpParams.noConfusion
  have hstable : Stable fun _ => True := fun _ _ _ => trivial
  refine withRetry_spec env ?_ serverName 1
  refine Triple.bind (ensureServerReady_spec env serverName) fun _ => ?_
  refine (requestResult_spec env hcall hstable serverName).conseq
    (fun s hs => ready_of_isReady hs trivial) ?_ fun _ hs => hs
  rintro result s ⟨response, hres, hrunning, -, -, hreplied⟩
  exact ⟨response, hres, hrunning, hreplied⟩

def toolCallEvent (route : ToolRoute) (arguments : Option Value) (process : Nat) (id : UInt64) :
    Event :=
  .sent route.serverName process (numbered id (.callTool ⟨route.rawName, arguments, none⟩))

theorem processOf_ready_spec (serverName : String) (method missing : String) (process : Nat)
    {E : Session W → Prop} :
    Triple (Holds fun manager trace => KnownReady serverName process manager ∧ A manager trace)
      (processOf serverName method missing)
      (fun found s => found = process ∧ Holds A s) E := by
  unfold processOf serverMut
  refine Triple.bind (Q := fun server s => server.process = some process ∧ Holds A s)
    (Triple.bind (lookup_spec _) fun found => ?_) fun server => Triple.given fun hproc => ?_
  · cases found with
    | some server =>
      refine Triple.pure ?_
      rintro s ⟨hfound, ⟨known, hknown, hproc, -⟩, hs⟩
      obtain rfl : server = known := Option.some.inj (hfound.trans hknown)
      exact ⟨hproc, hs⟩
    | none =>
      refine Triple.throw ?_
      rintro s ⟨hfound, ⟨known, hknown, -, -⟩, -⟩
      rw [hknown] at hfound
      cases hfound
  · rw [hproc]
    exact Triple.pure fun s hs => ⟨rfl, hs⟩

theorem serverMut_known (h : s.manager.servers.get serverName = some server) :
    serverMut serverName s = .ok server s := by
  rw [serverMut, bind_ok (lookup_eq _ s), h]
  rfl

theorem ensureServerReady_of_ready (hserver : s.manager.servers.get serverName = some server)
    (hproc : server.process = some process) (hinit : server.initialized = true)
    (hrunning : env.tryWait process s.world = (.ok false, s.world)) :
    ensureServerReady env decoders serverName s = .ok () s := by
  have hknown := serverMut_known hserver
  have hexited : serverProcessExited env serverName s = .ok false s := by
    rw [serverProcessExited, bind_ok hknown, hproc]
    have hobserved : observe (env.tryWait process) s = .ok (.ok false) s := by
      rw [observe_eq, hrunning]
    exact bind_ok hobserved
  have hkept : resetIf env false serverName s = .ok () s := rfl
  have hspawn : spawnIfNeeded env serverName s = .ok () s := by
    rw [spawnIfNeeded, bind_ok hknown, hproc]
    rfl
  rw [ensureServerReady, bind_ok hexited, bind_ok hkept, readyLoop, readyRound, bind_ok hspawn,
    bind_ok hknown, if_pos hinit]
  rfl

theorem requestResult_of_frame {payload : List UInt8} {value : T} {world : W}
    (hserver : s.manager.servers.get serverName = some server)
    (hproc : server.process = some process)
    (hexchange : env.exchange process (numbered s.manager.nextRequestId params)
      listToolsTimeoutMs s.world = (.frame payload, world)) (hdecode : decode payload =
      .ok ⟨"2.0", .number s.manager.nextRequestId, some value, none⟩) :
    requestResult env decode serverName params s =
      .ok value
        { manager := { s.manager with nextRequestId := saturatingSucc s.manager.nextRequestId }
          world := world
          nextProcess := s.nextProcess
          trace := s.trace ++ [.sent serverName process (numbered s.manager.nextRequestId params),
            .received process payload] } := by
  have haccept : acceptResponse decode params.method (.number s.manager.nextRequestId) payload =
      .ok ⟨"2.0", .number s.manager.nextRequestId, some value, none⟩ := by
    rw [acceptResponse, hdecode]
    simp
  let numberedSession : Session W := { s with manager :=
    { s.manager with nextRequestId := saturatingSucc s.manager.nextRequestId } }
  have hid : takeRequestId s = .ok (.number s.manager.nextRequestId) numberedSession := rfl
  have hknown : processOf serverName params.method
      "server process missing after initialization" numberedSession =
        .ok process numberedSession := by
    rw [processOf, bind_ok (serverMut_known (show numberedSession.manager.servers.get serverName =
      some server from hserver)), hproc]
    rfl
  have hreq : request env decode serverName process (.number s.manager.nextRequestId) params
      listToolsTimeoutMs numberedSession =
        .ok (some (.ok ⟨"2.0", .number s.manager.nextRequestId, some value, none⟩))
          { numberedSession with
            world := world
            trace := s.trace ++ [.sent serverName process
              (numbered s.manager.nextRequestId params), .received process payload] } := by
    let sent : Session W := { numberedSession with
      trace := s.trace ++ [.sent serverName process (numbered s.manager.nextRequestId params)] }
    have hobserved : observe (env.exchange process (numbered s.manager.nextRequestId params)
        listToolsTimeoutMs) sent = .ok (.frame payload) { sent with world := world } := by
      rw [observe_eq, show sent.world = s.world from rfl, hexchange]
    have hrecorded : record (.received process payload) { sent with world := world } =
        .ok () { sent with
          world := world
          trace := s.trace ++ [.sent serverName process
            (numbered s.manager.nextRequestId params), .received process payload] } := by
      rw [record_eq, List.append_assoc]
      rfl
    rw [← haccept]
    exact (bind_ok (record_eq _ numberedSession)).trans
      ((bind_ok hobserved).trans (bind_ok hrecorded))
  have hrun : runProcessRequest env decode serverName process (.number s.manager.nextRequestId)
      params listToolsTimeoutMs numberedSession =
        .ok ⟨"2.0", .number s.manager.nextRequestId, some value, none⟩
          { numberedSession with
            world := world
            trace := s.trace ++ [.sent serverName process
              (numbered s.manager.nextRequestId params), .received process payload] } :=
    bind_ok hreq
  rw [requestResult, bind_ok hid, bind_ok hknown, bind_ok hrun]
  rfl

theorem serverMut_unknown (h : s.manager.servers.get serverName = none) :
    serverMut serverName s = .error (.error (.unknownServer serverName)) s := by
  rw [serverMut, bind_ok (lookup_eq _ s), h]
  rfl

theorem ensureServerReady_unknown (h : s.manager.servers.get serverName = none) :
    ensureServerReady env decoders serverName s =
      .error (.error (.unknownServer serverName)) s :=
  bind_error (bind_error (serverMut_unknown h))

/-- The end of a call of a tool: its request was sent, unless the server did not
get ready. -/
def CallSent (decoders : ResponseDecoders) (old : List Event) (index : KeyMap String ToolRoute)
    (calls : List Event) (route : ToolRoute) (arguments : Option Value)
    (manager : McpServerManager) (trace : List Event) : Prop :=
  ∃ process id, Running decoders old index
    (calls ++ [toolCallEvent route arguments process id]) manager trace

def CallFailed (old : List Event) (index : KeyMap String ToolRoute) (calls : List Event)
    (route : ToolRoute) (arguments : Option Value) (decoders : ResponseDecoders)
    (session s : Session W) : Prop :=
  Holds (CallSent decoders old index calls route arguments) s ∨
    ((∃ e t, ensureServerReady env decoders route.serverName session = .error e t) ∧
      Holds (Running decoders old index calls) s)

theorem callTool_spec {route : ToolRoute} (hroute : index.get qualifiedToolName = some route)
    (arguments : Option Value) (hsession : Holds (Running decoders old index calls) session) :
    Triple (fun s => s = session) (callTool env decoders qualifiedToolName arguments)
      (fun response => Holds fun manager trace =>
        CallSent decoders old index calls route arguments manager trace ∧
        Replied decoders.callTool old trace (.callTool ⟨route.rawName, arguments, none⟩) response)
      (CallFailed env old index calls route arguments decoders session) := by
  refine Triple.bind (Q := fun found s => found = some route ∧ s = session) ?_ fun found =>
    Triple.given fun hfound => ?_
  · unfold lookup
    refine Triple.modifyGet ?_
    rintro s rfl
    have hroutes := congrArg (fun index => index.get qualifiedToolName) hsession.routes
    exact ⟨hroutes.trans hroute, rfl⟩
  subst hfound
  refine Triple.bind (Q := fun _ s => s = session) ?_ fun timeoutMs => ?_
  · refine Triple.bind (Q := fun _ s => s = session) ?_ fun server => Triple.pure fun _ hs => hs
    cases hserver : session.manager.servers.get route.serverName with
    | some server =>
      rintro s rfl
      rw [serverMut_known hserver]
      rfl
    | none =>
      rintro s rfl
      rw [serverMut_unknown hserver]
      exact .inr ⟨⟨_, _, ensureServerReady_unknown env hserver⟩, hsession⟩
  refine Triple.bind (((ensureServerReady_spec env route.serverName).run hsession).conseq
    (fun _ hs => hs) (fun _ _ hs => hs.2)
    fun s hs => .inr ⟨hs.1.imp fun e he => ⟨s, he⟩, hs.2⟩) fun _ => ?_
  have hready (s : Session W) (hs : Holds (fun manager trace =>
      Running decoders old index calls manager trace ∧
        IsReady decoders route.serverName manager trace) s) := ready_of_isReady (F := fun _ => True) hs
          trivial
  refine Triple.conseq ?_ (fun s hs => readyWith_iff.mp (hready s hs)) (fun _ _ hs => hs)
    fun _ hs => hs
  refine Triple.named fun process => ?_
  refine Triple.bind (takeRequestId_spec (B := KnownReady route.serverName process)
    (F := fun trace => True ∧ HandshakeDone decoders trace process) fun _ _ h => h) fun id =>
      Triple.named fun number => Triple.given fun hid => ?_
  subst hid
  have hprocessOf := processOf_ready_spec (A := fun manager trace =>
    Sending decoders old index calls (.callTool ⟨route.rawName, arguments, none⟩) process number
      manager trace) route.serverName "tools/call" "server process missing after initialization"
      process (E := CallFailed env old index calls route arguments decoders session)
  refine Triple.bind (hprocessOf.conseq ?_ (fun _ _ hs => hs) fun _ hs => hs) fun found =>
    Triple.given fun hfound => ?_
  · rintro s ⟨hrunning, htaken, hknown, -, hdone⟩
    exact ⟨hknown, hrunning, htaken, fun _ => hdone⟩
  subst hfound
  refine triple_exact fun manager trace hsending => ?_
  have hafter {after : List Event} (h : AfterRequest trace route.serverName found number
      (.callTool ⟨route.rawName, arguments, none⟩) after) :
      Running decoders old index (calls ++ [toolCallEvent route arguments found number]) manager
        after := hsending.after h
  refine Triple.bind ((runProcessRequest_spec env decoders.callTool route.serverName found number _
    timeoutMs manager trace).attempt.weaken ?_) fun reply => ?_
  · rintro s ⟨rfl, hs⟩
    exact .inl ⟨found, number, hafter hs⟩
  · cases reply with
    | ok response =>
      refine Triple.pure ?_
      rintro s ⟨rfl, payload, htrace, hdecode, hid⟩
      refine ⟨⟨found, number, hafter (.inr ⟨payload, htrace⟩)⟩, trace, route.serverName, found,
        number, payload, [], ?_, hsending.running.since, hdecode, hid⟩
      rw [htrace, List.append_nil]
    | error error =>
      refine (failAfterReset_spec env route.serverName error).conseq ?_ (fun _ _ hs => hs)
        fun s hs => .inl ⟨found, number, hs⟩
      rintro s ⟨rfl, hs⟩
      exact hafter hs

theorem callTool_unknown {arguments : Option Value}
    (h : session.manager.toolIndex.get qualifiedToolName = none) :
    callTool env decoders qualifiedToolName arguments session =
      .error (.error (.unknownTool qualifiedToolName)) session := by
  rw [callTool, bind_ok (lookup_eq _ session), h]
  rfl

theorem shutdownFrom_spec (serverNames : List String) :
    Triple (Holds (Running decoders old index calls)) (shutdownFrom env serverNames)
      (fun _ => Holds (Running decoders old index calls))
      (Holds (Running decoders old index calls)) := by
  induction serverNames with
  | nil => exact Triple.pure fun _ hs => hs
  | cons serverName rest ih =>
    refine Triple.bind (serverMut_spec serverName) fun server => ?_
    have hdown (manager : McpServerManager) (trace : List Event)
        (h : Running decoders old index calls manager trace) :
        Running decoders old index calls
          (manager.setServer serverName { server with process := none, initialized := false })
          trace := h.setServer fun hfalse => by cases hfalse
    cases server.process with
    | some process =>
      refine Triple.bind ((shutdownProcess_spec env process).conseq (fun _ hs => hs.2)
        (fun _ _ hs => hs) fun _ hs => hs) fun down => ?_
      exact Triple.bind (liftIo_spec down) fun _ =>
        Triple.bind (setServer_spec hdown) fun _ => ih
    | none =>
      exact Triple.bind (setServer_spec fun manager trace h => hdown manager trace h.2)
        fun _ => ih

theorem shutdown_spec :
    Triple (Holds (Running decoders old index calls)) (shutdown env)
      (fun _ => Holds (Running decoders old index calls))
      (Holds (Running decoders old index calls)) :=
  Triple.bind (lookup_spec _) fun serverNames =>
    (shutdownFrom_spec env serverNames).conseq (fun _ hs => hs.2) (fun _ _ hs => hs) fun _ hs => hs

end Lists

end DbClinic.Mcp
