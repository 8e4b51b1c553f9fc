import DbClinic.Lib.Effects
import DbClinic.Mcp.Lifecycle
import DbClinic.Mcp.Server
import DbClinic.Runtime.Text

/-!
The client's manager of stdio servers. What the processes and the system do is
up to an environment: a frame that is read may be any frame, a late one too. A
session is the manager, the environment, and the trace of what was spawned, sent
and read; every process that is spawned has a number of its own. The pages of a
list may go on for ever, so their loop has a bound, and a call that reaches it is
still pending. The name that a tool is called by is normalised and joined with
that of its server by a separator that both may contain.
-/

namespace DbClinic.Mcp

open DbClinic.Effects List
open DbClinic.Runtime (trimMatches)
open DbClinic.Serde (Value)

def claudeaiServerPrefix : List Char := ['c', 'l', 'a', 'u', 'd', 'e', '.', 'a', 'i', ' ']

def isNameChar (c : Char) : Bool :=
  ('a' ≤ c && c ≤ 'z') || ('A' ≤ c && c ≤ 'Z') || ('0' ≤ c && c ≤ '9') || c = '_' || c = '-'

/-- The loop of `collapse_underscores`. -/
def collapseFrom (lastWasUnderscore : Bool) : List Char → List Char
  | [] => []
  | c :: cs =>
    if c = '_' then
      if lastWasUnderscore then collapseFrom true cs else c :: collapseFrom true cs
    else c :: collapseFrom false cs

def collapseUnderscores (value : List Char) : List Char := collapseFrom false value

def normalizeNameForMcp (name : List Char) : List Char :=
  let normalized := name.map fun c => if isNameChar c then c else '_'
  if claudeaiServerPrefix.isPrefixOf name then trimMatches (· = '_') (collapseUnderscores normalized)
  else normalized

def mcpToolPrefix (serverName : List Char) : List Char :=
  ['m', 'c', 'p', '_', '_'] ++ normalizeNameForMcp serverName ++ ['_', '_']

def mcpToolName (serverName toolName : String) : String :=
  String.ofList (mcpToolPrefix serverName.toList ++ normalizeNameForMcp toolName.toList)

/-- The normalised name of one server is longer, and the rest of it is the
beginning of what the other server has after its name. -/
def Overlap (server tool otherServer otherTool : List Char) : Prop :=
  ∃ more, more ≠ [] ∧ server = otherServer ++ more ∧
    ['_', '_'] ++ otherTool = more ++ ['_', '_'] ++ tool

/-- Two tools whose names meet: they are normalised to the same names, or the
separator is found at another place of the other's name. -/
def NamesMeet (server tool otherServer otherTool : String) : Prop :=
  let s := normalizeNameForMcp server.toList
  let t := normalizeNameForMcp tool.toList
  let s' := normalizeNameForMcp otherServer.toList
  let t' := normalizeNameForMcp otherTool.toList
  (s = s' ∧ t = t') ∨ Overlap s t s' t' ∨ Overlap s' t' s t

theorem join_eq_iff (server tool otherServer otherTool : List Char) :
    server ++ (['_', '_'] ++ tool) = otherServer ++ (['_', '_'] ++ otherTool) ↔
      (server = otherServer ∧ tool = otherTool) ∨ Overlap server tool otherServer otherTool ∨
        Overlap otherServer otherTool server tool := by
  rw [append_eq_append_iff]
  constructor
  · rintro (⟨more, hserver, htool⟩ | ⟨more, hserver, htool⟩)
    · by_cases hmore : more = []
      · subst hmore
        rw [append_nil] at hserver
        exact .inl ⟨hserver.symm, append_cancel_left htool⟩
      · exact .inr (.inr ⟨more, hmore, hserver, by rw [htool, append_assoc]⟩)
    · by_cases hmore : more = []
      · subst hmore
        rw [append_nil] at hserver
        exact .inl ⟨hserver, (append_cancel_left htool).symm⟩
      · exact .inr (.inl ⟨more, hmore, hserver, by rw [htool, append_assoc]⟩)
  · rintro (⟨rfl, rfl⟩ | ⟨more, -, hserver, htool⟩ | ⟨more, -, hserver, htool⟩)
    · exact .inl ⟨[], (append_nil _).symm, rfl⟩
    · exact .inr ⟨more, hserver, by rw [htool, append_assoc]⟩
    · exact .inl ⟨more, hserver, by rw [htool, append_assoc]⟩

theorem mcpToolName_eq_iff (server tool otherServer otherTool : String) :
    mcpToolName server tool = mcpToolName otherServer otherTool ↔
      NamesMeet server tool otherServer otherTool := by
  rw [mcpToolName, mcpToolName, String.ofList_inj]
  simp only [mcpToolPrefix, append_assoc, append_cancel_left_eq]
  exact join_eq_iff _ _ _ _

example : mcpToolName "a__b" "c" = mcpToolName "a" "b__c" := by decide

structure McpInitializeClientInfo where
  name : String
  version : String

structure McpInitializeParams where
  protocolVersion : String
  capabilities : Value
  clientInfo : McpInitializeClientInfo

def cargoPkgVersion : String := "0.1.0"

def defaultInitializeParams : McpInitializeParams where
  protocolVersion := "2025-03-26"
  capabilities := .object []
  clientInfo := ⟨"runtime", cargoPkgVersion⟩

/-- The parameters of a request; they determine its method. -/
inductive McpParams where
  | handshake (params : McpInitializeParams)
  | listTools (cursor : Option String)
  | callTool (params : McpToolCallParams)
  | listResources (cursor : Option String)
  | readResource (uri : String)

def McpParams.method : McpParams → String
  | handshake _ => "initialize"
  | listTools _ => "tools/list"
  | callTool _ => "tools/call"
  | listResources _ => "resources/list"
  | readResource _ => "resources/read"

structure McpInitializeServerInfo where
  name : String
  version : String

structure McpInitializeResult where
  protocolVersion : String
  capabilities : Value
  serverInfo : McpInitializeServerInfo

structure McpListToolsResult where
  tools : List McpTool
  nextCursor : Option String

structure McpToolCallContent where
  kind : String
  data : List (String × Value)

structure McpToolCallResult where
  content : List McpToolCallContent
  structuredContent : Option Value
  isError : Option Bool
  metaData : Option Value

structure McpResource where
  uri : String
  name : Option String
  description : Option String
  mimeType : Option String
  annotations : Option Value
  metaData : Option Value

structure McpListResourcesResult where
  resources : List McpResource
  nextCursor : Option String

structure McpResourceContents where
  uri : String
  mimeType : Option String
  text : Option String
  blob : Option String
  metaData : Option Value

structure McpReadResourceResult where
  contents : List McpResourceContents

structure ResponseDecoders where
  handshake : List UInt8 → Except SerdeError (JsonRpcResponse McpInitializeResult)
  listTools : List UInt8 → Except SerdeError (JsonRpcResponse McpListToolsResult)
  callTool : List UInt8 → Except SerdeError (JsonRpcResponse McpToolCallResult)
  listResources : List UInt8 → Except SerdeError (JsonRpcResponse McpListResourcesResult)
  readResource : List UInt8 → Except SerdeError (JsonRpcResponse McpReadResourceResult)

inductive McpServerManagerError where
  | io (error : IoError)
  | transport (serverName method : String) (source : IoError)
  | jsonRpc (serverName method : String) (error : JsonRpcError)
  | invalidResponse (serverName method details : String)
  | timeout (serverName method : String) (timeoutMs : Nat)
  | unknownTool (qualifiedName : String)
  | unknownServer (serverName : String)

namespace McpServerManagerError

def display : McpServerManagerError → String
  | io error => error.message
  | transport serverName method source =>
    "MCP server \x60" ++ serverName ++ "\x60 transport failed during " ++ method ++ ": " ++
      source.message
  | jsonRpc serverName method error =>
    "MCP server \x60" ++ serverName ++ "\x60 returned JSON-RPC error for " ++ method ++ ": " ++
      error.message ++ " (" ++ toString error.code ++ ")"
  | invalidResponse serverName method details =>
    "MCP server \x60" ++ serverName ++ "\x60 returned invalid response for " ++ method ++ ": " ++
      details
  | timeout serverName method timeoutMs =>
    "MCP server \x60" ++ serverName ++ "\x60 timed out after " ++ toString timeoutMs ++
      " ms while handling " ++ method
  | unknownTool qualifiedName => "unknown MCP tool \x60" ++ qualifiedName ++ "\x60"
  | unknownServer serverName => "unknown MCP server \x60" ++ serverName ++ "\x60"

def lifecyclePhaseForMethod (method : String) : McpLifecyclePhase :=
  if method = "initialize" then .initializeHandshake
  else if method = "tools/list" then .toolDiscovery
  else if method = "resources/list" then .resourceDiscovery
  else if method = "resources/read" ∨ method = "tools/call" then .invocation
  else .errorSurfacing

def lifecyclePhase : McpServerManagerError → McpLifecyclePhase
  | io _ => .spawnConnect
  | transport _ method _ | jsonRpc _ method _ | invalidResponse _ method _ | timeout _ method _ =>
    lifecyclePhaseForMethod method
  | unknownTool _ => .toolDiscovery
  | unknownServer _ => .serverRegistration

def isRetryable : McpServerManagerError → Bool
  | transport .. | timeout .. => true
  | _ => false

def shouldReset : McpServerManagerError → Bool
  | transport .. | timeout .. | invalidResponse .. => true
  | _ => false

def recoverable (error : McpServerManagerError) : Bool :=
  decide (error.lifecyclePhase ≠ .initializeHandshake) && error.isRetryable

def IoErrorKind.display : IoErrorKind → String
  | .unexpectedEof => "unexpected end of file"
  | .invalidData => "invalid data"
  | .invalidInput => "invalid input parameter"
  | .other name => name

def errorContext : McpServerManagerError → KeyMap String String
  | io error => KeyMap.empty.insert "kind" (IoErrorKind.display error.kind)
  | transport serverName method source =>
    ((KeyMap.empty.insert "server" serverName).insert "method" method).insert "io_kind"
      (IoErrorKind.display source.kind)
  | jsonRpc serverName method error =>
    ((KeyMap.empty.insert "server" serverName).insert "method" method).insert "jsonrpc_code"
      (toString error.code)
  | invalidResponse serverName method details =>
    ((KeyMap.empty.insert "server" serverName).insert "method" method).insert "details" details
  | timeout serverName method timeoutMs =>
    ((KeyMap.empty.insert "server" serverName).insert "method" method).insert "timeout_ms"
      (toString timeoutMs)
  | unknownTool qualifiedName => KeyMap.empty.insert "qualified_tool" qualifiedName
  | unknownServer serverName => KeyMap.empty.insert "server" serverName

end McpServerManagerError

/-- How a call ends without a result; it may still be going on. -/
inductive Interrupt where
  | error (reason : McpServerManagerError)
  | pending

/-- An error is returned to who made the call; a pending call returns nothing. -/
def Interrupt.caught : Interrupt → Option McpServerManagerError
  | error reason => some reason
  | pending => none

structure ManagedMcpTool where
  serverName : String
  qualifiedName : String
  rawName : String
  tool : McpTool

structure ToolRoute where
  serverName : String
  rawName : String
  deriving DecidableEq

structure ManagedMcpServer where
  toolCallTimeoutMs : Option Nat
  process : Option Nat
  initialized : Bool

structure UnsupportedMcpServer where
  serverName : String
  transport : String
  reason : String

/-- The servers are listed in the order of their names. -/
structure McpServerManager where
  servers : KeyMap String ManagedMcpServer
  unsupportedServers : List UnsupportedMcpServer
  toolIndex : KeyMap String ToolRoute
  nextRequestId : UInt64

/-- What comes of a request: it cannot be sent or its reply cannot be read, time
runs out, or a frame is read. -/
inductive Exchange where
  | failed (error : IoError)
  | timedOut
  | frame (payload : List UInt8)

/-- How the processes and the system behave. -/
structure Environment (W : Type) where
  spawn : String → Nat → W → Except IoError Unit × W
  tryWait : Nat → W → Except IoError Bool × W
  kill : Nat → W → Except IoError Unit × W
  wait : Nat → W → Except IoError Unit × W
  exchange : Nat → JsonRpcRequest McpParams → (timeoutMs : Nat) → W → Exchange × W
  nowSecs : W → Nat × W

inductive Event where
  | spawned (serverName : String) (process : Nat)
  | sent (serverName : String) (process : Nat) (request : JsonRpcRequest McpParams)
  | received (process : Nat) (frame : List UInt8)

structure Session (W : Type) where
  manager : McpServerManager
  world : W
  nextProcess : Nat
  trace : List Event

abbrev ManagerM (W α : Type) := EStateM Interrupt (Session W) α

section Steps

variable {W α T : Type}

def fail (reason : McpServerManagerError) : ManagerM W α := EStateM.throw (.error reason)

/-- The `?` operator on an `io::Result`. -/
def liftIo : Except IoError α → ManagerM W α
  | .ok a => pure a
  | .error error => fail (.io error)

def lookup (f : Session W → α) : ManagerM W α := EStateM.modifyGet fun s => (f s, s)

def observe (f : W → α × W) : ManagerM W α :=
  EStateM.modifyGet fun s => ((f s.world).1, { s with world := (f s.world).2 })

def updateManager (f : McpServerManager → McpServerManager) : ManagerM W Unit :=
  EStateM.modifyGet fun s => ((), { s with manager := f s.manager })

def record (event : Event) : ManagerM W Unit :=
  EStateM.modifyGet fun s => ((), { s with trace := s.trace ++ [event] })

variable {m : ManagerM W α} {s t : Session W} {β : Type} {f : α → ManagerM W β} {a : α}

theorem bind_ok (h : m s = .ok a t) : (m >>= f) s = f a t := by
  change EStateM.bind m f s = _
  rw [EStateM.bind, h]

theorem bind_error {e : Interrupt} (h : m s = .error e t) : (m >>= f) s = .error e t := by
  change EStateM.bind m f s = _
  rw [EStateM.bind, h]

theorem attempt_ok (h : m s = .ok a t) :
    attempt Interrupt.caught m s = .ok (.ok a) t := by
  rw [attempt, h]

theorem lookup_eq (f : Session W → α) (s : Session W) : lookup f s = .ok (f s) s := rfl

theorem observe_eq (f : W → α × W) (s : Session W) :
    observe f s = .ok (f s.world).1 { s with world := (f s.world).2 } := rfl

theorem record_eq (event : Event) (s : Session W) :
    record event s = .ok () { s with trace := s.trace ++ [event] } := rfl

end Steps

end DbClinic.Mcp
