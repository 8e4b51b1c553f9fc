import DbClinic.Mcp.ManagerResults

/-!
The routes of the tools that a discovery returns. A server's routes are cleared
before its tools are added, which leaves those of the servers before it; a tool
loses its route only to another one of the same qualified name.
-/

namespace DbClinic.Mcp

open DbClinic.Effects List
open DbClinic.Serde (Value)
open DbClinic.Runtime (stripPrefix)

def ManagedMcpTool.route (tool : ManagedMcpTool) : ToolRoute := ⟨tool.serverName, tool.rawName⟩

/-- Tools with names of their own have their routes. -/
def Routed (tools : List ManagedMcpTool) (index : KeyMap String ToolRoute) : Prop :=
  (tools.map ManagedMcpTool.qualifiedName).Nodup →
    ∀ tool ∈ tools, index.get tool.qualifiedName = some tool.route

variable {tools : List ManagedMcpTool}

theorem get_insertRoutes_of_notMem {key : String} (h : key ∉ tools.map ManagedMcpTool.qualifiedName)
    (index : KeyMap String ToolRoute) :
    (insertRoutes index tools).get key = index.get key := by
  induction tools generalizing index with
  | nil => rfl
  | cons tool tools ih =>
    obtain ⟨hfirst, hrest⟩ := not_or.mp (mem_cons.not.mp h)
    rw [insertRoutes, foldl_cons]
    exact (ih hrest _).trans (KeyMap.get_insert_of_ne index _ hfirst)

theorem routed_insertRoutes (tools : List ManagedMcpTool) (index : KeyMap String ToolRoute) :
    Routed tools (insertRoutes index tools) := by
  induction tools generalizing index with
  | nil => exact fun _ _ hmem => absurd hmem not_mem_nil
  | cons first tools ih =>
    intro hnodup tool hmem
    obtain ⟨hfirst, hrest⟩ := nodup_cons.mp hnodup
    rw [insertRoutes, foldl_cons]
    rcases mem_cons.mp hmem with rfl | hmem
    · exact (get_insertRoutes_of_notMem hfirst _).trans (KeyMap.get_insert_self index _ _)
    · exact ih _ hrest tool hmem

theorem Routed.append {discovered : List ManagedMcpTool} {index : KeyMap String ToolRoute}
    (h : Routed discovered index) {serverName : String}
    (hothers : ∀ tool ∈ discovered, tool.serverName ≠ serverName) :
    Routed (discovered ++ tools) (insertRoutes (clearRoutes index serverName) tools) := by
  intro hnodup tool hmem
  rw [map_append, nodup_append] at hnodup
  obtain ⟨hdiscovered, htools, hapart⟩ := hnodup
  rcases mem_append.mp hmem with hmem | hmem
  · have hname := mem_map_of_mem (f := ManagedMcpTool.qualifiedName) hmem
    have hnot : tool.qualifiedName ∉ tools.map ManagedMcpTool.qualifiedName :=
      fun hmem' => hapart _ hname _ hmem' rfl
    rw [get_insertRoutes_of_notMem hnot, clearRoutes, KeyMap.get_retain, h hdiscovered tool hmem,
      Option.filter_some, if_pos]
    exact decide_eq_true (hothers tool hmem)
  · exact routed_insertRoutes tools _ htools tool hmem

section Discovery

variable {W : Type} (env : Environment W) {decoders : ResponseDecoders} {old : List Event}
  {index : KeyMap String ToolRoute} {calls : List Event} {manager : McpServerManager}
  {trace : List Event}

theorem Running.withRoutes (h : Running decoders old index calls manager trace)
    (other : KeyMap String ToolRoute) :
    Running decoders old other calls { manager with toolIndex := other } trace where
  sound := { h.sound with }
  since := h.since
  routes := rfl
  calls := h.calls

/-- The tools that have been discovered, on servers that are not among the ones
to come. -/
structure Discovering (decoders : ResponseDecoders) (old : List Event) (calls : List Event)
    (names : List String) (discovered : List ManagedMcpTool) (manager : McpServerManager)
    (trace : List Event) : Prop where
  running : ∃ index, Running decoders old index calls manager trace
  routed : Routed discovered manager.toolIndex
  tools : ∀ tool ∈ discovered, tool.serverName ∉ names ∧
    ToolOf decoders old tool.serverName tool trace

theorem toolReplied_of_prefix {start : List Event} (hstart : old <+: start) {tool : McpTool}
    (h : ToolReplied decoders start trace tool) : ToolReplied decoders old trace tool := by
  obtain ⟨cursor, response, result, hreplied, hres⟩ := h
  obtain ⟨before, serverName, process, id, payload, after, htrace, hsince, hrest⟩ := hreplied
  exact ⟨cursor, response, result,
    ⟨before, serverName, process, id, payload, after, htrace, hstart.trans hsince, hrest⟩, hres⟩

def Listed (decoders : ResponseDecoders) (old : List Event) (calls : List Event)
    (serverName : String) (rest : List String) (discovered tools : List ManagedMcpTool)
    (manager : McpServerManager) (trace : List Event) : Prop :=
  Discovering decoders old calls (serverName :: rest) discovered manager trace ∧
    ∀ tool ∈ tools, ToolOf decoders old serverName tool trace

variable {names : List String} {discovered : List ManagedMcpTool} {session : Session W}

theorem Discovering.later {later : McpServerManager} {more : List Event}
    (h : Discovering decoders old calls names discovered manager trace)
    (hlater : Running decoders trace manager.toolIndex calls later more) :
    Discovering decoders old calls names discovered later more := by
  obtain ⟨index, hrun⟩ := h.running
  obtain ⟨new, rfl⟩ := hlater.since
  refine ⟨⟨_, hlater.sound, hrun.since.trans (prefix_append _ _), rfl, hlater.calls⟩, ?_,
    fun tool hmem => ⟨(h.tools tool hmem).1, stable_toolOf _ _ _ new (h.tools tool hmem).2⟩⟩
  rw [hlater.routes]
  exact h.routed

theorem listServer_spec (fuel : Nat) (serverName : String) (rest : List String)
    (discovered : List ManagedMcpTool) :
    Triple (Holds (Discovering decoders old calls (serverName :: rest) discovered))
      (discoverToolsForServer env decoders fuel serverName)
      (fun tools => Holds (Listed decoders old calls serverName rest discovered tools))
      (Holds (Discovering decoders old calls (serverName :: rest) discovered)) := by
  refine triple_exact fun manager trace h => ?_
  obtain ⟨index, hrun⟩ := h.running
  have hstart : Running decoders trace manager.toolIndex calls manager trace :=
    ⟨hrun.sound, prefix_refl _, rfl, hrun.calls⟩
  refine (discoverToolsForServer_spec env fuel serverName).conseq ?_ ?_ fun s hs => h.later hs
  · rintro s ⟨rfl, rfl⟩
    exact hstart
  · rintro tools s ⟨hlater, htools⟩
    exact ⟨h.later hlater, fun tool hmem =>
      ⟨(htools tool hmem).1, toolReplied_of_prefix hrun.since (htools tool hmem).2⟩⟩

variable {serverName : String} {rest : List String}

theorem Listed.addRoutes (hname : serverName ∉ rest)
    (h : Listed decoders old calls serverName rest discovered tools manager trace) :
    Discovering decoders old calls rest (discovered ++ tools)
      { manager with toolIndex := insertRoutes (clearRoutes manager.toolIndex serverName) tools }
      trace := by
  obtain ⟨⟨⟨index, hrun⟩, hrouted, hdiscovered⟩, htools⟩ := h
  refine ⟨⟨_, hrun.withRoutes _⟩, hrouted.append fun tool hmem heq => ?_, fun tool hmem => ?_⟩
  · exact (hdiscovered tool hmem).1 (heq ▸ mem_cons_self)
  · rcases mem_append.mp hmem with hmem | hmem
    · obtain ⟨hserver, htool⟩ := hdiscovered tool hmem
      exact ⟨fun hrest => hserver (mem_cons_of_mem _ hrest), htool⟩
    · have htool := htools tool hmem
      have hserver : tool.serverName = serverName := by rw [htool.1]; rfl
      rw [hserver]
      exact ⟨hname, htool⟩

def Discovery (decoders : ResponseDecoders) (old : List Event) (calls : List Event)
    (tools : List ManagedMcpTool) : McpServerManager → List Event → Prop :=
  Discovering decoders old calls [] tools

theorem routes_spec (hname : serverName ∉ rest) {α : Type} {m : ManagerM W α}
    {Q : α → Session W → Prop} {E : Session W → Prop}
    (h : Triple (Holds (Discovering decoders old calls rest (discovered ++ tools))) m Q E) :
    Triple (Holds (Listed decoders old calls serverName rest discovered tools))
      (do clearRoutesForServer serverName; addRoutes tools; m) Q E := by
  refine Triple.bind (Q := fun _ => Holds fun manager trace => ∃ before,
    manager = { before with toolIndex := clearRoutes before.toolIndex serverName } ∧
    Listed decoders old calls serverName rest discovered tools before trace) ?_ fun _ => ?_
  · unfold clearRoutesForServer updateManager
    exact Triple.modifyGet fun s hs => ⟨s.manager, rfl, hs⟩
  · refine Triple.bind (Q := fun _ =>
      Holds (Discovering decoders old calls rest (discovered ++ tools))) ?_ fun _ => h
    unfold addRoutes updateManager
    refine Triple.modifyGet ?_
    rintro s ⟨before, hbefore, hlisted⟩
    have hadded := hlisted.addRoutes hname
    simp only [Holds, hbefore]
    exact hadded

theorem Discovering.forget (h : Discovering decoders old calls names discovered manager trace) :
    Discovering decoders old calls [] [] manager trace :=
  ⟨h.running, fun _ _ hmem => absurd hmem not_mem_nil,
    fun _ hmem => absurd hmem not_mem_nil⟩

theorem discoverToolsFrom_spec (fuel : Nat) (hnames : names.Nodup)
    (discovered : List ManagedMcpTool) :
    Triple (Holds (Discovering decoders old calls names discovered))
      (discoverToolsFrom env decoders fuel names discovered)
      (fun tools => Holds (Discovery decoders old calls tools))
      (Holds (Discovery decoders old calls [])) := by
  induction names generalizing discovered with
  | nil => exact Triple.pure fun _ hs => hs
  | cons serverName rest ih =>
    obtain ⟨hname, hrest⟩ := nodup_cons.mp hnames
    refine Triple.bind ((listServer_spec env fuel serverName rest discovered).weaken
      fun s hs => hs.forget) fun tools => ?_
    exact routes_spec hname (ih hrest _)

theorem discoverTools_spec (fuel : Nat) :
    Triple (Holds fun manager trace => ∃ index, Running decoders old index calls manager trace)
      (discoverTools env decoders fuel)
      (fun tools => Holds (Discovery decoders old calls tools))
      (Holds (Discovery decoders old calls [])) := by
  refine triple_exact fun manager trace hrun => ?_
  refine Triple.bind (Q := fun names s => names.Nodup ∧
    Holds (Discovering decoders old calls names []) s) ?_ fun names =>
      Triple.given fun hnames => discoverToolsFrom_spec env fuel hnames []
  unfold lookup
  refine Triple.modifyGet ?_
  rintro s ⟨rfl, rfl⟩
  exact ⟨s.manager.servers.nodup, hrun, fun _ _ hmem => absurd hmem not_mem_nil,
    fun _ hmem => absurd hmem not_mem_nil⟩

theorem discoverBestEffortFrom_spec (fuel : Nat) (hnames : names.Nodup) (discovered : Discovered) :
    Triple (Holds (Discovering decoders old calls names discovered.tools))
      (discoverBestEffortFrom env decoders fuel names discovered)
      (fun found => Holds (Discovery decoders old calls found.tools))
      (Holds (Discovery decoders old calls [])) := by
  induction names generalizing discovered with
  | nil => exact Triple.pure fun _ hs => hs
  | cons serverName rest ih =>
    obtain ⟨hname, hrest⟩ := nodup_cons.mp hnames
    refine Triple.bind ((listServer_spec env fuel serverName rest discovered.tools).attempt.weaken
      fun s hs => hs.forget) fun listed => ?_
    cases listed with
    | ok tools =>
      exact routes_spec hname (ih hrest ⟨discovered.tools ++ tools,
        discovered.workingServers ++ [serverName], discovered.failedServers⟩)
    | error error =>
      -- The routes of a server that failed are cleared, and none are added.
      refine Triple.bind (Q := fun _ =>
        Holds (Discovering decoders old calls rest discovered.tools)) ?_ fun _ =>
          ih hrest ⟨discovered.tools, discovered.workingServers,
            discovered.failedServers ++ [error.discoveryFailure serverName]⟩
      unfold clearRoutesForServer updateManager
      refine Triple.modifyGet fun s hs => ?_
      have hlisted : Listed decoders old calls serverName rest discovered.tools [] s.manager
          s.trace := ⟨hs, fun _ hmem => absurd hmem not_mem_nil⟩
      have hcleared := hlisted.addRoutes hname
      rw [append_nil] at hcleared
      exact hcleared

theorem discoverToolsBestEffort_spec (fuel : Nat) :
    Triple (Holds fun manager trace => ∃ index, Running decoders old index calls manager trace)
      (discoverToolsBestEffort env decoders fuel)
      (fun report => Holds (Discovery decoders old calls report.tools))
      (Holds (Discovery decoders old calls [])) := by
  refine triple_exact fun manager trace hrun => ?_
  refine Triple.bind (Q := fun names s => names.Nodup ∧
    Holds (Discovering decoders old calls names []) s) ?_ fun names =>
      Triple.given fun hnames => ?_
  · unfold lookup
    refine Triple.modifyGet ?_
    rintro s ⟨rfl, rfl⟩
    exact ⟨s.manager.servers.nodup, hrun, fun _ _ hmem => absurd hmem not_mem_nil,
      fun _ hmem => absurd hmem not_mem_nil⟩
  refine Triple.bind (discoverBestEffortFrom_spec env fuel hnames ⟨[], [], []⟩) fun found => ?_
  refine Triple.bind ((lookup_spec _).conseq (fun _ hs => hs) (fun _ s hs => hs.2)
    fun _ hs => hs) fun unsupported => ?_
  refine Triple.bind (Triple.mapM fun failure => ?_) fun failed => ?_
  · exact Triple.bind (observe_spec _) fun _ => Triple.pure fun _ hs => hs
  refine Triple.bind (Triple.mapM fun server => ?_) fun others => Triple.pure fun _ hs => hs
  exact Triple.bind (observe_spec _) fun _ => Triple.pure fun _ hs => hs

def Call.Discovers : Call → Prop
  | .discoverTools | .discoverToolsBestEffort => True
  | _ => False

theorem callTool_running (qualifiedToolName : String) (arguments : Option Value)
    (hsession : Holds (Running decoders old index calls) session) :
    ∃ more, Holds (Running decoders old index (calls ++ more))
      (final (callTool env decoders qualifiedToolName arguments) session) := by
  cases hroute : index.get qualifiedToolName with
  | some route =>
    refine Triple.final (F := fun s => ∃ more,
      Holds (Running decoders old index (calls ++ more)) s)
      (callTool_spec env hroute arguments hsession) rfl ?_ ?_
    · rintro response s ⟨⟨process, id, hrun⟩, -⟩
      exact ⟨_, hrun⟩
    · rintro s (⟨process, id, hrun⟩ | ⟨-, hrun⟩)
      · exact ⟨_, hrun⟩
      · exact ⟨[], by rw [append_nil]; exact hrun⟩
  | none =>
    have hunknown : session.manager.toolIndex.get qualifiedToolName = none := by
      rw [← hroute, ← hsession.routes]
    refine ⟨[], ?_⟩
    rw [final, callTool_unknown env hunknown, append_nil]
    exact hsession

def HasRoutes (decoders : ResponseDecoders) (index : KeyMap String ToolRoute)
    (manager : McpServerManager) (trace : List Event) : Prop :=
  ∃ calls, Running decoders [] index calls manager trace

theorem runCall_keepsRoutes (fuel : Nat) {call : Call} (hcall : ¬call.Discovers)
    (hsession : Holds (HasRoutes decoders index) session) :
    Holds (HasRoutes decoders index) (final (runCall env decoders fuel call) session) := by
  obtain ⟨calls, hrun⟩ := hsession
  have hdone {T : Type} {m : ManagerM W T} {Q : T → Session W → Prop}
      (h : Triple (Holds (Running decoders [] index calls)) m Q
        (Holds (Running decoders [] index calls)))
      (hQ : ∀ t s, Q t s → Holds (Running decoders [] index calls) s) :
      Holds (HasRoutes decoders index) (final m session) :=
    Triple.final (F := Holds (HasRoutes decoders index)) h hrun
      (fun t s hs => ⟨calls, hQ t s hs⟩) fun s hs => ⟨calls, hs⟩
  cases call with
  | discoverTools => exact absurd trivial hcall
  | discoverToolsBestEffort => exact absurd trivial hcall
  | callTool qualifiedToolName arguments =>
    rw [runCall, final_bind_pure]
    obtain ⟨more, hafter⟩ := callTool_running env qualifiedToolName arguments hrun
    exact ⟨calls ++ more, hafter⟩
  | listResources serverName =>
    rw [runCall, final_bind_pure]
    exact hdone (listResources_spec env fuel serverName) fun _ _ h => h.1
  | readResource serverName uri =>
    rw [runCall, final_bind_pure]
    refine hdone (readResource_spec env serverName uri) ?_
    rintro result s ⟨response, -, hs, -⟩
    exact hs
  | shutdown =>
    rw [runCall, final_bind_pure (shutdown env) fun _ => CallResult.down]
    exact hdone (shutdown_spec env) fun _ _ h => h

theorem runCalls_keepsRoutes {later : List (Call × Nat)}
    (hlater : ∀ call ∈ later, ¬call.1.Discovers)
    (hsession : Holds (HasRoutes decoders index) session) :
    Holds (HasRoutes decoders index) (runCalls env decoders later session) := by
  induction later generalizing session with
  | nil => exact hsession
  | cons call later ih =>
    have hfirst := runCall_keepsRoutes env call.2 (hlater call mem_cons_self) hsession
    exact ih (fun other hmem => hlater other (mem_cons_of_mem _ hmem)) hfirst

end Discovery

section Callable

variable {W : Type} (env : Environment W) (decoders : ResponseDecoders)

/-- A call by the qualified name sends one call of a tool, with the raw name, to
the tool's server; it sends none if that server cannot be made ready. -/
def CallsItself (session : Session W) (tool : ManagedMcpTool) : Prop :=
  ∀ arguments,
    let after := final (callTool env decoders tool.qualifiedName arguments) session
    (∃ process id, toolCalls after.trace =
      toolCalls session.trace ++ [toolCallEvent tool.route arguments process id]) ∨
    (toolCalls after.trace = toolCalls session.trace ∧
      ∃ e t, ensureServerReady env decoders tool.serverName session = .error e t)

/-- A discovery that succeeds, by either of the two functions. -/
def Discovers (fuel : Nat) (session : Session W) (tools : List ManagedMcpTool)
    (after : Session W) : Prop :=
  discoverTools env decoders fuel session = .ok tools after ∨
    ∃ report, discoverToolsBestEffort env decoders fuel session = .ok report after ∧
      report.tools = tools

/-- Every tool is called as itself, whatever is called in between, and no two have
one name. -/
def AllCallable (after : Session W) (tools : List ManagedMcpTool) : Prop :=
  (∀ later : List (Call × Nat), (∀ call ∈ later, ¬call.1.Discovers) →
    ∀ tool ∈ tools, CallsItself env decoders (runCalls env decoders later after) tool) ∧
  (tools.map ManagedMcpTool.qualifiedName).Nodup

variable {env decoders}

variable {session after : Session W} {index : KeyMap String ToolRoute}
variable {tools : List ManagedMcpTool} {calls : List Event}

theorem callsItself_of_route (hsession : Holds (HasRoutes decoders index) session)
    {tool : ManagedMcpTool} (hroute : index.get tool.qualifiedName = some tool.route) :
    CallsItself env decoders session tool := by
  intro arguments after
  obtain ⟨calls, hrun⟩ := hsession
  have hcalls : toolCalls session.trace = calls := hrun.calls
  rw [hcalls]
  refine Triple.final (F := fun s => (∃ process id, toolCalls s.trace =
      calls ++ [toolCallEvent tool.route arguments process id]) ∨
    (toolCalls s.trace = calls ∧
      ∃ e t, ensureServerReady env decoders tool.serverName session = .error e t))
    (callTool_spec env hroute arguments hrun) rfl ?_ ?_
  · rintro response s ⟨⟨process, id, hafter⟩, -⟩
    exact .inl ⟨process, id, hafter.calls⟩
  · rintro s (⟨process, id, hafter⟩ | ⟨hready, hafter⟩)
    · exact .inl ⟨process, id, hafter.calls⟩
    · exact .inr ⟨hafter.calls, hready⟩

variable {fuel : Nat}

theorem discovery_of_discovers (hsession : Holds (Running decoders [] index calls) session)
    (h : Discovers env decoders fuel session tools after) :
    Holds (Discovery decoders [] calls tools) after := by
  rcases h with h | ⟨report, h, rfl⟩
  · have hends := @discoverTools_spec W env decoders [] calls fuel session ⟨index, hsession⟩
    rw [h] at hends
    exact hends
  · have hends := @discoverToolsBestEffort_spec W env decoders [] calls fuel session
      ⟨index, hsession⟩
    rw [h] at hends
    exact hends

theorem nodup_iff {old : List Event} (h : Holds (Discovery decoders old calls tools) after) :
    (tools.map ManagedMcpTool.qualifiedName).Nodup ↔
      tools.Pairwise fun a b => ¬NamesMeet a.serverName a.rawName b.serverName b.rawName := by
  have hname (tool : ManagedMcpTool) (hmem : tool ∈ tools) :
      tool.qualifiedName = mcpToolName tool.serverName tool.rawName := by
    rw [((h.tools tool hmem).2).1]
    rfl
  rw [List.Nodup, pairwise_map]
  constructor
  · intro hpairwise
    refine hpairwise.imp_of_mem fun {a b} ha hb hne hmeet => hne ?_
    rw [hname a ha, hname b hb]
    exact (mcpToolName_eq_iff _ _ _ _).mpr hmeet
  · intro hpairwise
    refine hpairwise.imp_of_mem fun {a b} ha hb hnot heq => hnot ?_
    rw [hname a ha, hname b hb] at heq
    exact (mcpToolName_eq_iff _ _ _ _).mp heq

/-- A session that some calls lead to. -/
def Reached (decoders : ResponseDecoders) (manager : McpServerManager) (trace : List Event) : Prop :=
  ∃ index calls, Running decoders [] index calls manager trace

theorem reached_start (servers : KeyMap String (Option Nat)) (others : List (String × String))
    (world : W) :
    Holds (Reached decoders) (Session.start (McpServerManager.fromServers servers others) world) := by
  refine ⟨_, _, ⟨?_, sentAfterHandshake_nil, List.Pairwise.nil, ?_⟩, prefix_refl _, rfl, rfl⟩
  · intro serverName server hserver hinit
    rw [KeyMap.get_eq_some_iff] at hserver
    obtain ⟨entry, -, heq⟩ := mem_map.mp hserver
    cases heq
    cases hinit
  · exact fun _ hmem => absurd hmem not_mem_nil

theorem reached_runCall (fuel : Nat) (call : Call) (hsession : Holds (Reached decoders) session) :
    Holds (Reached decoders) (final (runCall env decoders fuel call) session) := by
  obtain ⟨index, calls, hrun⟩ := hsession
  have hdiscovery (tools : List ManagedMcpTool) (s : Session W)
      (h : Holds (Discovery decoders [] calls tools) s) : Holds (Reached decoders) s := by
    obtain ⟨index, hafter⟩ := h.running
    exact ⟨index, calls, hafter⟩
  by_cases hcall : call.Discovers
  · cases call with
    | discoverTools =>
      rw [runCall, final_bind_pure]
      exact (discoverTools_spec env fuel).final ⟨index, hrun⟩ hdiscovery (hdiscovery [])
    | discoverToolsBestEffort =>
      rw [runCall, final_bind_pure]
      exact (discoverToolsBestEffort_spec env fuel).final ⟨index, hrun⟩
        (fun report => hdiscovery report.tools) (hdiscovery [])
    | _ => exact False.elim hcall
  · exact ⟨index, runCall_keepsRoutes env fuel hcall ⟨calls, hrun⟩⟩

theorem reached_runCalls (calls : List (Call × Nat)) (hsession : Holds (Reached decoders) session) :
    Holds (Reached decoders) (runCalls env decoders calls session) := by
  induction calls generalizing session with
  | nil => exact hsession
  | cons call calls ih => exact ih (reached_runCall call.2 call.1 hsession)

theorem allCallable_of_discovers (hsession : Holds (Running decoders [] index calls) session)
    (h : Discovers env decoders fuel session tools after) :
    AllCallable env decoders after tools ↔
      tools.Pairwise fun a b => ¬NamesMeet a.serverName a.rawName b.serverName b.rawName := by
  have hdiscovery := discovery_of_discovers hsession h
  rw [← nodup_iff hdiscovery]
  refine ⟨And.right, fun hnodup => ⟨fun later hlater tool hmem => ?_, hnodup⟩⟩
  obtain ⟨index, hrun⟩ := hdiscovery.running
  have hroutes : Holds (HasRoutes decoders after.manager.toolIndex) after :=
    ⟨calls, hrun.sound, hrun.since, rfl, hrun.calls⟩
  exact callsItself_of_route (runCalls_keepsRoutes env hlater hroutes)
    (hdiscovery.routed hnodup tool hmem)

end Callable

/-- The tools of a discovery are called as themselves exactly if no two of them
have names that meet. -/
theorem allCallable_iff {W : Type} (env : Environment W) (decoders : ResponseDecoders)
    (servers : KeyMap String (Option Nat)) (others : List (String × String)) (world : W)
    (before : List (Call × Nat)) (fuel : Nat) (tools : List ManagedMcpTool) (after : Session W)
    (h : Discovers env decoders fuel (runCalls env decoders before
      (Session.start (McpServerManager.fromServers servers others) world)) tools after) :
    AllCallable env decoders after tools ↔
      tools.Pairwise fun a b => ¬NamesMeet a.serverName a.rawName b.serverName b.rawName := by
  obtain ⟨index, calls, hrun⟩ := reached_runCalls before (reached_start servers others world)
  exact allCallable_of_discovers hrun h

section Answering

def responsePrefix (result : List Char) : List Char :=
  "\x7b\"jsonrpc\":\"2.0\",\"result\":".toList ++ result ++ ",\"id\":".toList

def responseText (result : List Char) (id : UInt64) : List Char :=
  responsePrefix result ++ id.toNat.repr.toList ++ ['\x7d']

def decodeText {T : Type} (result : List Char) (value : T) (payload : List UInt8) :
    Except SerdeError (JsonRpcResponse T) :=
  match (decodeUtf8 payload).bind (stripPrefix (responsePrefix result)) with
  | none => .error ⟨"expected value at line 1 column 1"⟩
  | some rest =>
    match parseUsize rest.dropLast with
    | .error error => .error ⟨error.text⟩
    | .ok id => .ok ⟨"2.0", .number (UInt64.ofNat id), some value, none⟩

variable {T : Type}

theorem decodeText_responseText (result : List Char) (value : T) (id : UInt64) :
    decodeText result value (encodeUtf8 (responseText result id)) =
      .ok ⟨"2.0", .number id, some value, none⟩ := by
  have hstrip : stripPrefix (responsePrefix result) (responseText result id) =
      some (id.toNat.repr.toList ++ ['\x7d']) := by
    rw [stripPrefix, responseText, append_assoc, if_pos, drop_left]
    exact isPrefixOf_iff_prefix.mpr (prefix_append _ _)
  have hfits : id.toNat ≤ usizeMax := by
    have := id.toNat_lt
    unfold usizeMax
    omega
  rw [decodeText, decodeUtf8_encodeUtf8, Option.bind_some, hstrip]
  simp only [dropLast_concat, parseUsize_repr hfits, UInt64.ofNat_toNat]

def handshakeText : List Char :=
  "\x7b\"protocolVersion\":\"2025-03-26\",\"capabilities\":\x7b\x7d,\"serverInfo\":\x7b\"name\":\"alpha\",\"version\":\"1.0\"\x7d\x7d".toList

def toolsText (names : List String) : List Char :=
  "\x7b\"tools\":[".toList ++
    ",".toList.intercalate (names.map fun name => "\x7b\"name\":\"".toList ++ name.toList ++ "\"\x7d".toList) ++
    "]\x7d".toList

def contentsText : List Char := "\x7b\"contents\":[]\x7d".toList

/-- The result that a request is answered with. -/
def resultText (names : List String) (method : String) : List Char :=
  if method = "initialize" then handshakeText
  else if method = "tools/list" then toolsText names
  else contentsText

def answering (names : List String) : Environment Unit where
  spawn _ _ world := (.ok (), world)
  tryWait _ world := (.ok false, world)
  kill _ world := (.ok (), world)
  wait _ world := (.ok (), world)
  exchange _ request _ world :=
    match request.id with
    | .number id =>
      (.frame (encodeUtf8 (responseText (resultText names request.method) id)), world)
    | _ => (.timedOut, world)
  nowSecs world := (0, world)

def listedTool (name : String) : McpTool := ⟨name, none, none, none, none⟩

def answeringDecoders (names : List String) : ResponseDecoders where
  handshake := decodeText handshakeText ⟨"2025-03-26", .object [], ⟨"alpha", "1.0"⟩⟩
  listTools := decodeText (toolsText names) ⟨names.map listedTool, none⟩
  callTool _ := .error ⟨"missing field \x60content\x60"⟩
  listResources _ := .error ⟨"missing field \x60resources\x60"⟩
  readResource := decodeText contentsText ⟨[]⟩

def alphaManager (server : ManagedMcpServer) (index : KeyMap String ToolRoute) (next : UInt64) :
    McpServerManager where
  servers := ⟨[("alpha", server)], nodup_singleton _⟩
  unsupportedServers := []
  toolIndex := index
  nextRequestId := next

theorem get_alpha (server : ManagedMcpServer) (index : KeyMap String ToolRoute) (next : UInt64) :
    (alphaManager server index next).servers.get "alpha" = some server := by
  rw [KeyMap.get_eq_some_iff]
  exact mem_cons_self

/-- What is added to the trace. -/
def answered (names : List String) (process : Nat) (params : McpParams) (id : UInt64) : List Event :=
  [.sent "alpha" process (numbered id params),
    .received process (encodeUtf8 (responseText (resultText names params.method) id))]

theorem request_answered (names : List String)
    {decode : List UInt8 → Except SerdeError (JsonRpcResponse T)} {value : T} {params : McpParams}
    {id : UInt64}
    (hdecode : decode (encodeUtf8 (responseText (resultText names params.method) id)) =
      .ok ⟨"2.0", .number id, some value, none⟩) (process timeoutMs : Nat) (s : Session Unit) :
    runProcessRequest (answering names) decode "alpha" process (.number id) params timeoutMs s =
      .ok ⟨"2.0", .number id, some value, none⟩
        { s with trace := s.trace ++ answered names process params id } := by
  have haccept : acceptResponse decode params.method (.number id)
      (encodeUtf8 (responseText (resultText names params.method) id)) =
        .ok ⟨"2.0", .number id, some value, none⟩ := by
    rw [acceptResponse, hdecode]
    simp
  have hreq : request (answering names) decode "alpha" process (.number id) params timeoutMs s =
      .ok (some (.ok ⟨"2.0", .number id, some value, none⟩))
        { s with trace := s.trace ++ answered names process params id } := by
    rw [← haccept, request, bind_ok (record_eq _ s), bind_ok (observe_eq _ _)]
    simp only [answering, JsonRpcRequest.new]
    rw [bind_ok (record_eq _ _), append_assoc]
    rfl
  exact bind_ok hreq

def readyServer : ManagedMcpServer := ⟨none, some 0, true⟩

def alphaSession (server : ManagedMcpServer) (index : KeyMap String ToolRoute) (next : UInt64)
    (nextProcess : Nat) (trace : List Event) : Session Unit :=
  ⟨alphaManager server index next, (), nextProcess, trace⟩

section Steps

variable (names : List String) (server : ManagedMcpServer) (index : KeyMap String ToolRoute)
  (next : UInt64) (nextProcess : Nat) (trace : List Event)

theorem takeRequestId_alpha :
    takeRequestId (alphaSession server index next nextProcess trace) =
      .ok (.number next) (alphaSession server index (saturatingSucc next) nextProcess trace) := rfl

theorem serverMut_alpha :
    serverMut "alpha" (alphaSession server index next nextProcess trace) =
      .ok server (alphaSession server index next nextProcess trace) :=
  serverMut_known (get_alpha server index next)

theorem processOf_alpha {server : ManagedMcpServer} {process : Nat}
    (h : server.process = some process) (method missing : String) :
    processOf "alpha" method missing (alphaSession server index next nextProcess trace) =
      .ok process (alphaSession server index next nextProcess trace) := by
  rw [processOf, bind_ok (serverMut_alpha server index next nextProcess trace), h]
  rfl

theorem requestResult_answered {decode : List UInt8 → Except SerdeError (JsonRpcResponse T)}
    {value : T} {params : McpParams}
    (hdecode : decode (encodeUtf8 (responseText (resultText names params.method) next)) =
      .ok ⟨"2.0", .number next, some value, none⟩) :
    requestResult (answering names) decode "alpha" params
        (alphaSession readyServer index next nextProcess trace) =
      .ok value (alphaSession readyServer index (saturatingSucc next) nextProcess
        (trace ++ answered names 0 params next)) :=
  requestResult_of_frame (answering names) (get_alpha readyServer index next) rfl rfl hdecode

theorem ensureServerReady_ready :
    ensureServerReady (answering names) (answeringDecoders names) "alpha"
        (alphaSession readyServer index next nextProcess trace) =
      .ok () (alphaSession readyServer index next nextProcess trace) :=
  ensureServerReady_of_ready (answering names) (get_alpha readyServer index next) rfl rfl rfl

end Steps

def newServer : ManagedMcpServer := ⟨none, none, false⟩

def spawnedServer : ManagedMcpServer := ⟨none, some 0, false⟩

/-- What the trace shows once the server has been made ready. -/
def readied (names : List String) : List Event :=
  [.spawned "alpha" 0] ++ answered names 0 (.handshake defaultInitializeParams) 1

theorem ensureServerReady_new (names : List String) :
    ensureServerReady (answering names) (answeringDecoders names) "alpha"
        (alphaSession newServer KeyMap.empty 1 0 []) =
      .ok () (alphaSession readyServer KeyMap.empty 2 1 (readied names)) := by
  have hserver := serverMut_alpha newServer KeyMap.empty 1 0 []
  have hexited : serverProcessExited (answering names) "alpha"
      (alphaSession newServer KeyMap.empty 1 0 []) =
        .ok false (alphaSession newServer KeyMap.empty 1 0 []) := bind_ok hserver
  have hkept : resetIf (answering names) false "alpha"
      (alphaSession newServer KeyMap.empty 1 0 []) =
        .ok () (alphaSession newServer KeyMap.empty 1 0 []) := rfl
  have hspawn : spawnIfNeeded (answering names) "alpha"
      (alphaSession newServer KeyMap.empty 1 0 []) =
        .ok () (alphaSession spawnedServer KeyMap.empty 1 1 [.spawned "alpha" 0]) := bind_ok hserver
  have hspawned := serverMut_alpha spawnedServer KeyMap.empty 1 1 [.spawned "alpha" 0]
  have hid := takeRequestId_alpha spawnedServer KeyMap.empty 1 1 [.spawned "alpha" 0]
  have hspawnedProcess : spawnedServer.process = some 0 := rfl
  have hproc := processOf_alpha KeyMap.empty 2 1 [.spawned "alpha" 0] hspawnedProcess
    "initialize" "server process missing before initialize"
  have hdecode : (answeringDecoders names).handshake
      (encodeUtf8 (responseText (resultText names (McpParams.method
        (.handshake defaultInitializeParams))) 1)) = .ok ⟨"2.0", .number 1, some
          ⟨"2025-03-26", .object [], ⟨"alpha", "1.0"⟩⟩, none⟩ := by
    simp only [answeringDecoders, resultText, McpParams.method, if_true, decodeText_responseText]
  have hreq := request_answered names hdecode 0 initializeTimeoutMs
    (alphaSession spawnedServer KeyMap.empty 2 1 [.spawned "alpha" 0])
  have hserver' := serverMut_alpha spawnedServer KeyMap.empty 2 1 (readied names)
  have haccept : acceptHandshake (answering names) "alpha" ⟨"2.0", .number 1, some
      ⟨"2025-03-26", .object [], ⟨"alpha", "1.0"⟩⟩, none⟩
        (alphaSession spawnedServer KeyMap.empty 2 1 (readied names)) =
      .ok () (alphaSession readyServer KeyMap.empty 2 1 (readied names)) := bind_ok hserver'
  rw [ensureServerReady, bind_ok hexited, bind_ok hkept, readyLoop, readyRound, bind_ok hspawn,
    bind_ok hspawned]
  change (takeRequestId >>= _) _ = _
  rw [bind_ok hid]
  change (processOf "alpha" _ _ >>= _) (alphaSession spawnedServer KeyMap.empty 2 1 _) = _
  rw [bind_ok hproc, bind_ok (attempt_ok hreq)]
  exact haccept

theorem withRetry_ok {W A : Type} {env : Environment W} {serverName : String} {once : ManagerM W A}
    {retries : Nat} {s t : Session W} {a : A} (h : once s = .ok a t) :
    withRetry env serverName once retries s = .ok a t := by
  cases retries with
  | zero => exact bind_ok (attempt_ok h)
  | succ retries => exact bind_ok (attempt_ok h)

def listedTools (names : List String) : List ManagedMcpTool :=
  names.map fun name => managedTool "alpha" (listedTool name)

theorem discoverToolsForServer_new (names : List String) :
    discoverToolsForServer (answering names) (answeringDecoders names) 1 "alpha"
        (alphaSession newServer KeyMap.empty 1 0 []) =
      .ok (listedTools names) (alphaSession readyServer KeyMap.empty 3 1
        (readied names ++ answered names 0 (.listTools none) 2)) := by
  have hdecode : (answeringDecoders names).listTools
      (encodeUtf8 (responseText (resultText names (McpParams.method (.listTools none))) 2)) =
        .ok ⟨"2.0", .number 2, some ⟨names.map listedTool, none⟩, none⟩ := by
    have hmethod : ("tools/list" : String) ≠ "initialize" := by decide
    simp only [answeringDecoders, resultText, McpParams.method, if_true, if_neg hmethod,
      decodeText_responseText]
  have hpage : toolsPage (answering names) (answeringDecoders names) "alpha" none
      (alphaSession readyServer KeyMap.empty 2 1 (readied names)) =
        .ok ((names.map listedTool).map (managedTool "alpha"), none)
          (alphaSession readyServer KeyMap.empty 3 1
            (readied names ++ answered names 0 (.listTools none) 2)) :=
    bind_ok (requestResult_answered names KeyMap.empty 2 1 (readied names) hdecode)
  refine withRetry_ok ?_
  rw [discoverToolsForServerOnce, bind_ok (ensureServerReady_new names), collectPages,
    bind_ok hpage, map_map]
  rfl

theorem discoverTools_new (names : List String) :
    discoverTools (answering names) (answeringDecoders names) 1
        (alphaSession newServer KeyMap.empty 1 0 []) =
      .ok (listedTools names) (alphaSession readyServer
        (insertRoutes (clearRoutes KeyMap.empty "alpha") (listedTools names)) 3 1
        (readied names ++ answered names 0 (.listTools none) 2)) := by
  have hnames : lookup (fun s => s.manager.servers.keys)
      (alphaSession newServer KeyMap.empty 1 0 []) =
        .ok ["alpha"] (alphaSession newServer KeyMap.empty 1 0 []) := rfl
  rw [discoverTools, bind_ok hnames, discoverToolsFrom, bind_ok (discoverToolsForServer_new names)]
  rfl

def oneServer : KeyMap String (Option Nat) := ⟨[("alpha", none)], nodup_singleton _⟩

theorem discovers_new (names : List String) :
    Discovers (answering names) (answeringDecoders names) 1
      (runCalls (answering names) (answeringDecoders names) []
        (Session.start (McpServerManager.fromServers oneServer []) ())) (listedTools names)
      (alphaSession readyServer
        (insertRoutes (clearRoutes KeyMap.empty "alpha") (listedTools names)) 3 1
        (readied names ++ answered names 0 (.listTools none) 2)) :=
  .inl (discoverTools_new names)

end Answering

/-- Two tools of one server, both called as themselves. -/
theorem read_write_callable :
    ∃ after, AllCallable (answering ["read", "write"]) (answeringDecoders ["read", "write"]) after
      (listedTools ["read", "write"]) := by
  refine ⟨_, (allCallable_iff (answering ["read", "write"]) (answeringDecoders ["read", "write"])
    oneServer [] () [] 1 _ _ (discovers_new ["read", "write"])).mpr ?_⟩
  have hnames : ¬NamesMeet "alpha" "read" "alpha" "write" := by
    rw [← mcpToolName_eq_iff]
    decide
  refine List.Pairwise.cons ?_ (pairwise_singleton _ _)
  intro tool hmem
  rw [mem_singleton.mp hmem]
  exact hnames

/-- Two tools of one server share one name, and a call can reach only one of
them. -/
theorem dotted_tool_shadowed :
    ∃ after, Discovers (answering ["a.b", "a_b"]) (answeringDecoders ["a.b", "a_b"]) 1
      (Session.start (McpServerManager.fromServers oneServer []) ())
      (listedTools ["a.b", "a_b"]) after ∧
    ¬AllCallable (answering ["a.b", "a_b"]) (answeringDecoders ["a.b", "a_b"]) after
      (listedTools ["a.b", "a_b"]) := by
  refine ⟨_, discovers_new ["a.b", "a_b"], fun hcallable => ?_⟩
  have hnodup : ¬((listedTools ["a.b", "a_b"]).map ManagedMcpTool.qualifiedName).Nodup := by decide
  exact hnodup hcallable.2

end DbClinic.Mcp
