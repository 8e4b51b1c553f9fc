import DbClinic.Mcp.Manager

/-!
The calls of the manager, function by function.
-/

namespace DbClinic.Mcp

open DbClinic.Effects
open DbClinic.Serde (Value)

def initializeTimeoutMs : Nat := 10000

def listToolsTimeoutMs : Nat := 30000

def defaultToolCallTimeoutMs : Nat := 60000

def u64Max : UInt64 := 18446744073709551615

/-- `u64::saturating_add(1)`. -/
def saturatingSucc (n : UInt64) : UInt64 := if n = u64Max then n else n + 1

def JsonRpcId.debug : JsonRpcId → String
  | number value => "Number(" ++ toString value.toNat ++ ")"
  | string value => "String(" ++ reprStr value ++ ")"
  | null => "Null"

namespace McpServerManager

/-- The stdio servers of a configuration, with their timeouts, and the others. -/
def fromServers (servers : KeyMap String (Option Nat)) (others : List (String × String)) :
    McpServerManager where
  servers := {
    entries := servers.entries.map fun e => (e.1, ⟨e.2, none, false⟩)
    nodup := by simpa [List.map_map, Function.comp_def] using servers.nodup }
  unsupportedServers := others.map fun other =>
    ⟨other.1, other.2, "transport " ++ other.2 ++ " is not supported by McpServerManager"⟩
  toolIndex := KeyMap.empty
  nextRequestId := 1

def setServer (manager : McpServerManager) (serverName : String) (server : ManagedMcpServer) :
    McpServerManager :=
  { manager with servers := manager.servers.update serverName server }

end McpServerManager

section Calls

variable {W T A : Type} (env : Environment W) (decoders : ResponseDecoders)

def serverMut (serverName : String) : ManagerM W ManagedMcpServer := do
  match ← lookup fun s => s.manager.servers.get serverName with
  | some server => pure server
  | none => fail (.unknownServer serverName)

def setServer (serverName : String) (server : ManagedMcpServer) : ManagerM W Unit :=
  updateManager fun manager => manager.setServer serverName server

def takeRequestId : ManagerM W JsonRpcId := do
  let id ← lookup fun s => s.manager.nextRequestId
  updateManager fun manager => { manager with nextRequestId := saturatingSucc id }
  pure (.number id)

def toolCallTimeoutMs (serverName : String) : ManagerM W Nat := do
  let server ← serverMut serverName
  pure (server.toolCallTimeoutMs.getD defaultToolCallTimeoutMs)

def hasExited (process : Nat) : ManagerM W Bool := do
  let exited ← observe (env.tryWait process)
  liftIo exited

/-- `McpStdioProcess::shutdown`. -/
def shutdownProcess (process : Nat) : ManagerM W (Except IoError Unit) := do
  match ← observe (env.tryWait process) with
  | .error error => pure (.error error)
  | .ok true => observe (env.wait process)
  | .ok false =>
    match ← observe (env.kill process) with
    | .ok () => observe (env.wait process)
    | .error error =>
      if error.kind = .invalidInput then observe (env.wait process) else pure (.error error)

/-- What `McpStdioProcess::request` makes of the frame that it reads. -/
def acceptResponse (decode : List UInt8 → Except SerdeError (JsonRpcResponse T)) (method : String)
    (id : JsonRpcId) (payload : List UInt8) : Except IoError (JsonRpcResponse T) :=
  match decode payload with
  | .error error => .error ⟨.invalidData, error.message⟩
  | .ok response =>
    if response.jsonrpc ≠ "2.0" then
      .error ⟨.invalidData, "MCP response for " ++ method ++ " used unsupported jsonrpc version \x60" ++
        response.jsonrpc ++ "\x60"⟩
    else if response.id ≠ id then
      .error ⟨.invalidData, "MCP response for " ++ method ++ " used mismatched id: expected " ++
        id.debug ++ ", got " ++ response.id.debug⟩
    else .ok response

/-- `McpStdioProcess::request` under a timeout; `none` when time runs out. -/
def request (decode : List UInt8 → Except SerdeError (JsonRpcResponse T)) (serverName : String)
    (process : Nat) (id : JsonRpcId) (params : McpParams) (timeoutMs : Nat) :
    ManagerM W (Option (Except IoError (JsonRpcResponse T))) := do
  let message := JsonRpcRequest.new id params.method (some params)
  record (.sent serverName process message)
  match ← observe (env.exchange process message timeoutMs) with
  | .timedOut => pure none
  | .failed error => pure (some (.error error))
  | .frame payload =>
    record (.received process payload)
    pure (some (acceptResponse decode params.method id payload))

def runProcessRequest (decode : List UInt8 → Except SerdeError (JsonRpcResponse T))
    (serverName : String) (process : Nat) (id : JsonRpcId) (params : McpParams) (timeoutMs : Nat) :
    ManagerM W (JsonRpcResponse T) := do
  match ← request env decode serverName process id params timeoutMs with
  | some (.ok response) => pure response
  | some (.error error) =>
    if error.kind = .invalidData then
      fail (.invalidResponse serverName params.method error.message)
    else fail (.transport serverName params.method error)
  | none => fail (.timeout serverName params.method timeoutMs)

def processOf (serverName method missing : String) : ManagerM W Nat := do
  let server ← serverMut serverName
  match server.process with
  | some process => pure process
  | none => fail (.invalidResponse serverName method missing)

def resultOf (serverName method : String) (response : JsonRpcResponse T) : ManagerM W T :=
  match response.error, response.result with
  | some error, _ => fail (.jsonRpc serverName method error)
  | none, none => fail (.invalidResponse serverName method "missing result payload")
  | none, some result => pure result

def resetServer (serverName : String) : ManagerM W Unit := do
  let server ← serverMut serverName
  setServer serverName { server with initialized := false, process := none }
  match server.process with
  | some process =>
    let _ ← shutdownProcess env process
    pure ()
  | none => pure ()

def serverProcessExited (serverName : String) : ManagerM W Bool := do
  let server ← serverMut serverName
  match server.process with
  | some process => hasExited env process
  | none => pure false

def resetIf (condition : Bool) (serverName : String) : ManagerM W Unit :=
  if condition then resetServer env serverName else pure ()

def failAfterReset (serverName : String) (error : McpServerManagerError) : ManagerM W A := do
  resetIf env error.shouldReset serverName
  fail error

def spawnIfNeeded (serverName : String) : ManagerM W Unit := do
  let server ← serverMut serverName
  match server.process with
  | some _ => pure ()
  | none =>
    let process ← lookup Session.nextProcess
    let spawned ← observe (env.spawn serverName process)
    liftIo spawned
    EStateM.modifyGet fun s => ((), { s with
      nextProcess := process + 1
      trace := s.trace ++ [.spawned serverName process] })
    setServer serverName { server with process := some process, initialized := false }

def acceptHandshake (serverName : String) (response : JsonRpcResponse McpInitializeResult) :
    ManagerM W Unit :=
  match response.error, response.result with
  | some error, _ => fail (.jsonRpc serverName "initialize" error)
  | none, none => do
    resetServer env serverName
    fail (.invalidResponse serverName "initialize" "missing result payload")
  | none, some _ => do
    let server ← serverMut serverName
    setServer serverName { server with initialized := true }

/-- One round of the loop of `ensure_server_ready`. -/
def readyRound (serverName : String) (onError : McpServerManagerError → ManagerM W Unit) :
    ManagerM W Unit := do
  spawnIfNeeded env serverName
  let server ← serverMut serverName
  if server.initialized then pure ()
  else
    let id ← takeRequestId
    let process ← processOf serverName "initialize" "server process missing before initialize"
    match ← attempt Interrupt.caught (runProcessRequest env decoders.handshake serverName process id
      (.handshake defaultInitializeParams) initializeTimeoutMs) with
    | .ok response => acceptHandshake env serverName response
    | .error error => onError error

/-- The loop, with the number of attempts that are left. -/
def readyLoop (serverName : String) : (retries : Nat) → ManagerM W Unit
  | 0 => readyRound env decoders serverName (failAfterReset env serverName)
  | retries + 1 => readyRound env decoders serverName fun error =>
    if error.isRetryable then do
      resetServer env serverName
      readyLoop serverName retries
    else failAfterReset env serverName error

def ensureServerReady (serverName : String) : ManagerM W Unit := do
  let exited ← serverProcessExited env serverName
  resetIf env exited serverName
  readyLoop env decoders serverName 1

/-- The loop around the discovery and the listing and reading of resources. -/
def withRetry (serverName : String) (once : ManagerM W A) : (retries : Nat) → ManagerM W A
  | 0 => do
    match ← attempt Interrupt.caught once with
    | .ok a => pure a
    | .error error => failAfterReset env serverName error
  | retries + 1 => do
    match ← attempt Interrupt.caught once with
    | .ok a => pure a
    | .error error =>
      if error.isRetryable then do
        resetServer env serverName
        withRetry serverName once retries
      else failAfterReset env serverName error

def requestResult (decode : List UInt8 → Except SerdeError (JsonRpcResponse T))
    (serverName : String) (params : McpParams) : ManagerM W T := do
  let id ← takeRequestId
  let process ← processOf serverName params.method "server process missing after initialization"
  let response ← runProcessRequest env decode serverName process id params listToolsTimeoutMs
  resultOf serverName params.method response

def collectPages (page : Option String → ManagerM W (List A × Option String)) :
    (fuel : Nat) → Option String → List A → ManagerM W (List A)
  | 0, _, _ => EStateM.throw .pending
  | fuel + 1, cursor, collected => do
    let listed ← page cursor
    match listed.2 with
    | some nextCursor => collectPages page fuel (some nextCursor) (collected ++ listed.1)
    | none => pure (collected ++ listed.1)

def managedTool (serverName : String) (tool : McpTool) : ManagedMcpTool where
  serverName := serverName
  qualifiedName := mcpToolName serverName tool.name
  rawName := tool.name
  tool := tool

def toolsPage (serverName : String) (cursor : Option String) :
    ManagerM W (List ManagedMcpTool × Option String) := do
  let result ← requestResult env decoders.listTools serverName (.listTools cursor)
  pure (result.tools.map (managedTool serverName), result.nextCursor)

def resourcesPage (serverName : String) (cursor : Option String) :
    ManagerM W (List McpResource × Option String) := do
  let result ← requestResult env decoders.listResources serverName (.listResources cursor)
  pure (result.resources, result.nextCursor)

def discoverToolsForServerOnce (fuel : Nat) (serverName : String) :
    ManagerM W (List ManagedMcpTool) := do
  ensureServerReady env decoders serverName
  collectPages (toolsPage env decoders serverName) fuel none []

def discoverToolsForServer (fuel : Nat) (serverName : String) :
    ManagerM W (List ManagedMcpTool) :=
  withRetry env serverName (discoverToolsForServerOnce env decoders fuel serverName) 1

def listResourcesOnce (fuel : Nat) (serverName : String) : ManagerM W McpListResourcesResult := do
  ensureServerReady env decoders serverName
  let resources ← collectPages (resourcesPage env decoders serverName) fuel none []
  pure ⟨resources, none⟩

def listResources (fuel : Nat) (serverName : String) : ManagerM W McpListResourcesResult :=
  withRetry env serverName (listResourcesOnce env decoders fuel serverName) 1

def readResourceOnce (serverName uri : String) : ManagerM W McpReadResourceResult := do
  ensureServerReady env decoders serverName
  requestResult env decoders.readResource serverName (.readResource uri)

def readResource (serverName uri : String) : ManagerM W McpReadResourceResult :=
  withRetry env serverName (readResourceOnce env decoders serverName uri) 1

def clearRoutes (index : KeyMap String ToolRoute) (serverName : String) :
    KeyMap String ToolRoute :=
  index.retain fun route => decide (route.serverName ≠ serverName)

def clearRoutesForServer (serverName : String) : ManagerM W Unit :=
  updateManager fun manager => { manager with toolIndex := clearRoutes manager.toolIndex serverName }

def insertRoutes (index : KeyMap String ToolRoute) (tools : List ManagedMcpTool) :
    KeyMap String ToolRoute :=
  tools.foldl (fun index tool =>
    index.insert tool.qualifiedName ⟨tool.serverName, tool.rawName⟩) index

def addRoutes (tools : List ManagedMcpTool) : ManagerM W Unit :=
  updateManager fun manager => { manager with toolIndex := insertRoutes manager.toolIndex tools }

def discoverToolsFrom (fuel : Nat) :
    List String → List ManagedMcpTool → ManagerM W (List ManagedMcpTool)
  | [], discovered => pure discovered
  | serverName :: rest, discovered => do
    let tools ← discoverToolsForServer env decoders fuel serverName
    clearRoutesForServer serverName
    addRoutes tools
    discoverToolsFrom fuel rest (discovered ++ tools)

def discoverTools (fuel : Nat) : ManagerM W (List ManagedMcpTool) := do
  let serverNames ← lookup fun s => s.manager.servers.keys
  discoverToolsFrom env decoders fuel serverNames []

/-- `dedupe_sorted`. -/
def dedupeSorted (values : List String) : List String :=
  (values.mergeSort fun a b => decide (a ≤ b)).dedup

structure McpDiscoveryFailure where
  serverName : String
  phase : McpLifecyclePhase
  error : String
  recoverable : Bool
  context : KeyMap String String

structure McpFailedServer where
  serverName : String
  phase : McpLifecyclePhase
  error : McpErrorSurface

structure McpDegradedReport where
  workingServers : List String
  failedServers : List McpFailedServer
  availableTools : List String
  missingTools : List String

def McpDegradedReport.new (workingServers : List String) (failedServers : List McpFailedServer)
    (availableTools expectedTools : List String) : McpDegradedReport where
  workingServers := dedupeSorted workingServers
  failedServers := failedServers
  availableTools := dedupeSorted availableTools
  missingTools := (dedupeSorted expectedTools).filter fun tool =>
    decide (tool ∉ dedupeSorted availableTools)

structure McpToolDiscoveryReport where
  tools : List ManagedMcpTool
  failedServers : List McpDiscoveryFailure
  unsupportedServers : List UnsupportedMcpServer
  degradedStartup : Option McpDegradedReport

def McpServerManagerError.discoveryFailure (error : McpServerManagerError) (serverName : String) :
    McpDiscoveryFailure where
  serverName := serverName
  phase := error.lifecyclePhase
  error := error.display
  recoverable := error.recoverable
  context := error.errorContext

def failedServer (failure : McpDiscoveryFailure) : ManagerM W McpFailedServer := do
  let now ← observe env.nowSecs
  pure ⟨failure.serverName, failure.phase, ⟨failure.phase, some failure.serverName, failure.error,
    failure.context, failure.recoverable, now⟩⟩

def unsupportedServerFailedServer (server : UnsupportedMcpServer) : ManagerM W McpFailedServer := do
  let now ← observe env.nowSecs
  pure ⟨server.serverName, .serverRegistration, ⟨.serverRegistration, some server.serverName,
    server.reason, KeyMap.empty.insert "transport" server.transport, false, now⟩⟩

structure Discovered where
  tools : List ManagedMcpTool
  workingServers : List String
  failedServers : List McpDiscoveryFailure

def discoverBestEffortFrom (fuel : Nat) : List String → Discovered → ManagerM W Discovered
  | [], discovered => pure discovered
  | serverName :: rest, discovered => do
    match ← attempt Interrupt.caught (discoverToolsForServer env decoders fuel serverName) with
    | .ok tools =>
      clearRoutesForServer serverName
      addRoutes tools
      discoverBestEffortFrom fuel rest { discovered with
        tools := discovered.tools ++ tools
        workingServers := discovered.workingServers ++ [serverName] }
    | .error error =>
      clearRoutesForServer serverName
      discoverBestEffortFrom fuel rest { discovered with
        failedServers := discovered.failedServers ++ [error.discoveryFailure serverName] }

def discoverToolsBestEffort (fuel : Nat) : ManagerM W McpToolDiscoveryReport := do
  let serverNames ← lookup fun s => s.manager.servers.keys
  let discovered ← discoverBestEffortFrom env decoders fuel serverNames ⟨[], [], []⟩
  let unsupported ← lookup fun s => s.manager.unsupportedServers
  let failed ← discovered.failedServers.mapM (failedServer env)
  let others ← unsupported.mapM (unsupportedServerFailedServer env)
  let degraded :=
    if discovered.workingServers ≠ [] ∧ failed ++ others ≠ [] then
      some (McpDegradedReport.new discovered.workingServers (failed ++ others)
        (discovered.tools.map ManagedMcpTool.qualifiedName) [])
    else none
  pure ⟨discovered.tools, discovered.failedServers, unsupported, degraded⟩

def callTool (qualifiedToolName : String) (arguments : Option Value) :
    ManagerM W (JsonRpcResponse McpToolCallResult) := do
  match ← lookup fun s => s.manager.toolIndex.get qualifiedToolName with
  | none => fail (.unknownTool qualifiedToolName)
  | some route =>
    let timeoutMs ← toolCallTimeoutMs route.serverName
    ensureServerReady env decoders route.serverName
    let id ← takeRequestId
    let process ← processOf route.serverName "tools/call"
      "server process missing after initialization"
    match ← attempt Interrupt.caught (runProcessRequest env decoders.callTool route.serverName
      process id (.callTool ⟨route.rawName, arguments, none⟩) timeoutMs) with
    | .ok response => pure response
    | .error error => failAfterReset env route.serverName error

def shutdownFrom : List String → ManagerM W Unit
  | [] => pure ()
  | serverName :: rest => do
    let server ← serverMut serverName
    match server.process with
    | some process =>
      let down ← shutdownProcess env process
      liftIo down
    | none => pure ()
    setServer serverName { server with process := none, initialized := false }
    shutdownFrom rest

def shutdown : ManagerM W Unit := do
  let serverNames ← lookup fun s => s.manager.servers.keys
  shutdownFrom env serverNames

inductive Call where
  | discoverTools
  | discoverToolsBestEffort
  | callTool (qualifiedToolName : String) (arguments : Option Value)
  | listResources (serverName : String)
  | readResource (serverName uri : String)
  | shutdown

inductive CallResult where
  | tools (tools : List ManagedMcpTool)
  | report (report : McpToolDiscoveryReport)
  | toolCall (response : JsonRpcResponse McpToolCallResult)
  | resources (result : McpListResourcesResult)
  | resource (result : McpReadResourceResult)
  | down

def runCall (fuel : Nat) : Call → ManagerM W CallResult
  | .discoverTools => do
    let tools ← discoverTools env decoders fuel
    pure (.tools tools)
  | .discoverToolsBestEffort => do
    let report ← discoverToolsBestEffort env decoders fuel
    pure (.report report)
  | .callTool qualifiedToolName arguments => do
    let response ← callTool env decoders qualifiedToolName arguments
    pure (.toolCall response)
  | .listResources serverName => do
    let result ← listResources env decoders fuel serverName
    pure (.resources result)
  | .readResource serverName uri => do
    let result ← readResource env decoders serverName uri
    pure (.resource result)
  | .shutdown => do
    shutdown env
    pure .down

/-- The session after some calls, each with the bound of its loops. -/
def runCalls (calls : List (Call × Nat)) (session : Session W) : Session W :=
  calls.foldl (fun s call => final (runCall env decoders call.2 call.1) s) session

def Session.start (manager : McpServerManager) (world : W) : Session W := ⟨manager, world, 0, []⟩

end Calls

end DbClinic.Mcp
