import DbClinic.Mcp.ManagerRoutes

/-!
What holds of every run of calls: no request but the handshake is sent to a
process that has not answered it, a result comes from the reply to its own
request, and a tool is called at most once. The numbers of the requests stop at
the largest one, which is used again.
-/

namespace DbClinic.Mcp

open DbClinic.Effects List
open DbClinic.Serde (Value)

/-- A response came from the frame that was read right after its request was sent.
It has the request's number, which no earlier request has, unless it is the
largest one. -/
def OwnReply {T : Type} (decode : List UInt8 → Except SerdeError (JsonRpcResponse T))
    (old trace : List Event) (params : McpParams) (response : JsonRpcResponse T) : Prop :=
  ∃ before serverName process id payload after,
    trace = before ++ [.sent serverName process (numbered id params), .received process payload] ++
      after ∧
    old <+: before ∧ decode payload = .ok response ∧ response.id = .number id ∧
    (id ∈ sentIds before → id = u64Max)

def OwnTool (decoders : ResponseDecoders) (old trace : List Event) (tool : McpTool) : Prop :=
  ∃ cursor response result, OwnReply decoders.listTools old trace (.listTools cursor) response ∧
    response.result = some result ∧ tool ∈ result.tools

def OwnResource (decoders : ResponseDecoders) (old trace : List Event) (resource : McpResource) :
    Prop :=
  ∃ cursor response result,
    OwnReply decoders.listResources old trace (.listResources cursor) response ∧
      response.result = some result ∧ resource ∈ result.resources

/-- What a call returns came from the replies to the requests of this call. -/
def OwnResult {W : Type} (decoders : ResponseDecoders) (session : Session W) (trace : List Event) :
    Call → CallResult → Prop
  | .discoverTools, .tools tools => ∀ tool ∈ tools, OwnTool decoders session.trace trace tool.tool
  | .discoverToolsBestEffort, .report report =>
    ∀ tool ∈ report.tools, OwnTool decoders session.trace trace tool.tool
  | .callTool qualifiedToolName arguments, .toolCall response =>
    ∃ route, session.manager.toolIndex.get qualifiedToolName = some route ∧
      OwnReply decoders.callTool session.trace trace
        (.callTool ⟨route.rawName, arguments, none⟩) response
  | .listResources _, .resources listed =>
    ∀ resource ∈ listed.resources, OwnResource decoders session.trace trace resource
  | .readResource _ uri, .resource result =>
    ∃ response, response.result = some result ∧
      OwnReply decoders.readResource session.trace trace (.readResource uri) response
  | .shutdown, .down => True
  | _, _ => False

structure SafeSession {W : Type} (env : Environment W) (decoders : ResponseDecoders)
    (session : Session W) : Prop where
  handshake : SentAfterHandshake decoders session.trace
  results : ∀ fuel call result after, runCall env decoders fuel call session = .ok result after →
    OwnResult decoders session after.trace call result
  oneCall : ∀ qualifiedToolName arguments, ∃ sent, sent.length ≤ 1 ∧
    toolCalls (final (callTool env decoders qualifiedToolName arguments) session).trace =
      toolCalls session.trace ++ sent

section Safety

variable {W : Type} (env : Environment W) {decoders : ResponseDecoders} {old : List Event}

variable {manager : McpServerManager} {trace : List Event} {session s t : Session W} {α : Type}
variable {m : ManagerM W α}

theorem Sound.ownReply {T : Type} {decode : List UInt8 → Except SerdeError (JsonRpcResponse T)}
    {params : McpParams} {response : JsonRpcResponse T} (h : Sound decoders manager trace)
    (hreplied : Replied decode old trace params response) :
    OwnReply decode old trace params response := by
  obtain ⟨before, serverName, process, id, payload, after, rfl, hstart, hdecode, hid⟩ := hreplied
  refine ⟨before, serverName, process, id, payload, after, rfl, hstart, hdecode, hid, fun hmem => ?_⟩
  have hids := h.ids
  rw [sentIds_append, sentIds_append, pairwise_append] at hids
  have hpair := (pairwise_append.mp hids.1).2.2 id hmem id mem_cons_self
  exact hpair.resolve_left (UInt64.lt_irrefl id)

theorem Sound.ownTool {tool : McpTool} (h : Sound decoders manager trace)
    (hreplied : ToolReplied decoders old trace tool) :
    OwnTool decoders old trace tool := by
  obtain ⟨cursor, response, result, hreplied, hres⟩ := hreplied
  exact ⟨cursor, response, result, h.ownReply hreplied, hres⟩

theorem Sound.ownResource {resource : McpResource} (h : Sound decoders manager trace)
    (hreplied : ResourceReplied decoders old trace resource) :
    OwnResource decoders old trace resource := by
  obtain ⟨cursor, response, result, hreplied, hres⟩ := hreplied
  exact ⟨cursor, response, result, h.ownReply hreplied, hres⟩

theorem Sound.running (h : Holds (Sound decoders) session) :
    Holds (Running decoders session.trace session.manager.toolIndex (toolCalls session.trace))
      session :=
  ⟨h, prefix_refl _, rfl, rfl⟩

theorem ends_ok {A : Session W → Prop} {Q : α → Session W → Prop} {E : Session W → Prop}
    (h : Triple A m Q E) (hs : A s) {a : α} (hrun : m s = .ok a t) : Q a t := by
  have hends := h s hs
  rw [hrun] at hends
  exact hends

theorem bind_pure_ok {β : Type} {f : α → β} {b : β} (h : (m >>= fun a => pure (f a)) s = .ok b t) :
    ∃ a, m s = .ok a t ∧ f a = b := by
  cases hm : m s with
  | ok a t' =>
    rw [bind_ok hm] at h
    cases h
    exact ⟨a, rfl, rfl⟩
  | error e t' =>
    rw [bind_error hm] at h
    cases h

theorem ownResult_of_ok {after : Session W} (hsession : Holds (Sound decoders) session) {fuel : Nat}
    {call : Call} {result : CallResult}
    (h : runCall env decoders fuel call session = .ok result after) :
    OwnResult decoders session after.trace call result := by
  have hrunning := Sound.running hsession
  have htools {tools : List ManagedMcpTool} {calls : List Event}
      (hdiscovery : Holds (Discovery decoders session.trace calls tools) after) :
      ∀ tool ∈ tools, OwnTool decoders session.trace after.trace tool.tool := by
    intro tool hmem
    obtain ⟨index, hafter⟩ := hdiscovery.running
    exact hafter.sound.ownTool (hdiscovery.tools tool hmem).2.2
  cases call with
  | discoverTools =>
    obtain ⟨tools, hrun, rfl⟩ := bind_pure_ok h
    exact htools (ends_ok (discoverTools_spec env fuel) ⟨_, hrunning⟩ hrun)
  | discoverToolsBestEffort =>
    obtain ⟨report, hrun, rfl⟩ := bind_pure_ok h
    exact htools (ends_ok (discoverToolsBestEffort_spec env fuel) ⟨_, hrunning⟩ hrun)
  | callTool qualifiedToolName arguments =>
    obtain ⟨response, hrun, rfl⟩ := bind_pure_ok h
    cases hroute : session.manager.toolIndex.get qualifiedToolName with
    | none =>
      rw [callTool_unknown env hroute] at hrun
      cases hrun
    | some route =>
      obtain ⟨⟨process, id, hafter⟩, hreplied⟩ :=
        ends_ok (callTool_spec env hroute arguments hrunning) rfl hrun
      exact ⟨route, hroute, hafter.sound.ownReply hreplied⟩
  | listResources serverName =>
    obtain ⟨listed, hrun, rfl⟩ := bind_pure_ok h
    obtain ⟨hafter, hresources⟩ := ends_ok (listResources_spec env fuel serverName) hrunning hrun
    exact fun resource hmem => hafter.sound.ownResource (hresources resource hmem)
  | readResource serverName uri =>
    obtain ⟨result, hrun, rfl⟩ := bind_pure_ok h
    obtain ⟨response, hres, hafter, hreplied⟩ :=
      ends_ok (readResource_spec env serverName uri) hrunning hrun
    exact ⟨response, hres, hafter.sound.ownReply hreplied⟩
  | shutdown =>
    obtain ⟨_, -, rfl⟩ := bind_pure_ok (f := fun _ => CallResult.down) h
    exact trivial

theorem oneCall_of_sound (hsession : Holds (Sound decoders) session) (qualifiedToolName : String)
    (arguments : Option Value) :
    ∃ sent, sent.length ≤ 1 ∧
      toolCalls (final (callTool env decoders qualifiedToolName arguments) session).trace =
        toolCalls session.trace ++ sent := by
  have hrunning := Sound.running hsession
  cases hroute : session.manager.toolIndex.get qualifiedToolName with
  | none =>
    refine ⟨[], Nat.zero_le 1, ?_⟩
    rw [final, callTool_unknown env hroute, append_nil]
  | some route =>
    refine Triple.final (F := fun s => ∃ sent, sent.length ≤ 1 ∧
      toolCalls s.trace = toolCalls session.trace ++ sent)
      (callTool_spec env hroute arguments hrunning) rfl ?_ ?_
    · rintro response s ⟨⟨process, id, hafter⟩, -⟩
      exact ⟨[toolCallEvent route arguments process id], Nat.le_refl 1, hafter.calls⟩
    · rintro s (⟨process, id, hafter⟩ | ⟨-, hafter⟩)
      · exact ⟨[toolCallEvent route arguments process id], Nat.le_refl 1, hafter.calls⟩
      · exact ⟨[], Nat.zero_le 1, by rw [append_nil]; exact hafter.calls⟩

end Safety

/-- Every run of calls is safe, with every behaviour of the processes. -/
theorem runCalls_safe {W : Type} (env : Environment W) (decoders : ResponseDecoders)
    (servers : KeyMap String (Option Nat)) (others : List (String × String)) (world : W)
    (calls : List (Call × Nat)) :
    SafeSession env decoders (runCalls env decoders calls
      (Session.start (McpServerManager.fromServers servers others) world)) := by
  obtain ⟨index, sent, hrunning⟩ :=
    reached_runCalls calls (reached_start servers others world)
  exact ⟨hrunning.sound.sent, fun _ _ _ _ h => ownResult_of_ok env hrunning.sound h,
    oneCall_of_sound env hrunning.sound⟩

section LastNumber

variable (names : List String) (uri : String)

theorem decode_contents (next : UInt64) :
    (answeringDecoders names).readResource
      (encodeUtf8 (responseText (resultText names (McpParams.method (.readResource uri))) next)) =
        .ok ⟨"2.0", .number next, some ⟨[]⟩, none⟩ := by
  have hmethod : ("resources/read" : String) ≠ "initialize" := by decide
  have hother : ("resources/read" : String) ≠ "tools/list" := by decide
  rw [McpParams.method, resultText, if_neg hmethod, if_neg hother]
  simp only [answeringDecoders, decodeText_responseText]

variable {next : UInt64} {count : Nat} {W : Type}

theorem runCall_read {start : Session Unit} {index : KeyMap String ToolRoute} {nextProcess : Nat}
    {trace : List Event}
    (hready : ensureServerReady (answering names) (answeringDecoders names) "alpha" start =
      .ok () (alphaSession readyServer index next nextProcess trace)) :
    runCall (answering names) (answeringDecoders names) 0 (.readResource "alpha" uri) start =
      .ok (.resource ⟨[]⟩) (alphaSession readyServer index (saturatingSucc next) nextProcess
        (trace ++ answered names 0 (.readResource uri) next)) := by
  have honce : readResourceOnce (answering names) (answeringDecoders names) "alpha" uri start =
      .ok ⟨[]⟩ (alphaSession readyServer index (saturatingSucc next) nextProcess
        (trace ++ answered names 0 (.readResource uri) next)) := by
    rw [readResourceOnce, bind_ok hready]
    exact requestResult_answered names index next nextProcess trace (decode_contents names uri next)
  exact bind_ok (withRetry_ok honce)

/-- The number after some more requests. -/
def numberAfter (next : UInt64) : Nat → UInt64
  | 0 => next
  | count + 1 => numberAfter (saturatingSucc next) count

theorem numberAfter_max (h : u64Max.toNat ≤ next.toNat + count) :
    numberAfter next count = u64Max := by
  induction count generalizing next with
  | zero =>
    have hbound := next.toNat_lt
    apply UInt64.toNat_inj.mp
    change u64Max.toNat ≤ next.toNat at h
    have hmax : u64Max.toNat = 18446744073709551615 := rfl
    change next.toNat = u64Max.toNat
    omega
  | succ count ih =>
    apply ih
    unfold saturatingSucc
    by_cases hmax : next = u64Max
    · rw [if_pos hmax, hmax]
      exact Nat.le_add_right _ _
    · have hne : next.toNat ≠ 18446744073709551615 := fun heq => hmax (UInt64.toNat_inj.mp heq)
      have hbound := next.toNat_lt
      rw [if_neg hmax, UInt64.toNat_add, UInt64.toNat_one]
      omega

theorem final_ok {α : Type} {m : ManagerM W α} {s t : Session W} {a : α} (h : m s = .ok a t) :
    final m s = t := by
  rw [final, h]

theorem runCalls_cons (env : Environment W) (decoders : ResponseDecoders) (call : Call × Nat)
    (calls : List (Call × Nat)) (s : Session W) :
    runCalls env decoders (call :: calls) s =
      runCalls env decoders calls (final (runCall env decoders call.2 call.1) s) := rfl

theorem runCalls_reads (count : Nat) (index : KeyMap String ToolRoute) (next : UInt64)
    (nextProcess : Nat) (trace : List Event) :
    ∃ more, runCalls (answering names) (answeringDecoders names)
        (List.replicate count (.readResource "alpha" uri, 0))
        (alphaSession readyServer index next nextProcess trace) =
      alphaSession readyServer index (numberAfter next count) nextProcess more := by
  induction count generalizing next trace with
  | zero => exact ⟨trace, rfl⟩
  | succ count ih =>
    have hread := runCall_read names uri
      (ensureServerReady_ready names index next nextProcess trace)
    rw [replicate_succ, runCalls_cons, final_ok hread]
    exact ih _ _

def manyReads (count : Nat) : List (Call × Nat) :=
  (.readResource "alpha" uri, 0) :: List.replicate count (.readResource "alpha" uri, 0)

theorem runCalls_manyReads (hcount : u64Max.toNat ≤ count) :
    ∃ trace, runCalls (answering names) (answeringDecoders names) (manyReads uri count)
        (Session.start (McpServerManager.fromServers oneServer []) ()) =
      alphaSession readyServer KeyMap.empty u64Max 1 trace := by
  have hstart : Session.start (McpServerManager.fromServers oneServer []) () =
      alphaSession newServer KeyMap.empty 1 0 [] := rfl
  have hfirst := runCall_read names uri (ensureServerReady_new names)
  obtain ⟨trace, hreads⟩ := runCalls_reads names uri count KeyMap.empty (saturatingSucc 2) 1
    (readied names ++ answered names 0 (.readResource uri) 2)
  rw [numberAfter_max (hcount.trans (Nat.le_add_left _ _))] at hreads
  refine ⟨trace, ?_⟩
  rw [manyReads, runCalls_cons, hstart, final_ok hfirst]
  exact hreads

end LastNumber

/-- The frame that answered one request is accepted for the next one: once the
numbers are used up, both have the largest one. -/
theorem last_number_repeated :
    ∃ (earlier session after : Session Unit) (first : CallResult) (result : McpReadResourceResult)
      (payload : List UInt8) (response : JsonRpcResponse McpReadResourceResult),
    earlier = runCalls (answering []) (answeringDecoders []) (manyReads "old" u64Max.toNat)
      (Session.start (McpServerManager.fromServers oneServer []) ()) ∧
    runCall (answering []) (answeringDecoders []) 0 (.readResource "alpha" "old") earlier =
      .ok first session ∧
    runCall (answering []) (answeringDecoders []) 0 (.readResource "alpha" "new") session =
      .ok (.resource result) after ∧
    after.trace = earlier.trace ++
      [.sent "alpha" 0 (numbered u64Max (.readResource "old")), .received 0 payload,
        .sent "alpha" 0 (numbered u64Max (.readResource "new")), .received 0 payload] ∧
    (answeringDecoders []).readResource payload = .ok response ∧
    response.id = .number u64Max ∧ response.result = some result := by
  obtain ⟨trace, hearlier⟩ := runCalls_manyReads [] "old" (Nat.le_refl u64Max.toNat)
  have hsaturated : saturatingSucc u64Max = u64Max := if_pos rfl
  have hold := runCall_read [] "old" (ensureServerReady_ready [] KeyMap.empty u64Max 1 trace)
  have hnew := runCall_read [] "new" (ensureServerReady_ready [] KeyMap.empty u64Max 1
    (trace ++ answered [] 0 (.readResource "old") u64Max))
  rw [hsaturated] at hold hnew
  refine ⟨_, _, _, _, _, _, _, hearlier.symm, hold, hnew, ?_, decode_contents [] "new" u64Max,
    rfl, rfl⟩
  change trace ++ answered [] 0 (.readResource "old") u64Max ++
    answered [] 0 (.readResource "new") u64Max = trace ++ _
  rw [append_assoc, answered, answered]
  rfl

end DbClinic.Mcp
