import DbClinic.Mcp.FramingRoundTrip

/-!
The MCP server: each payload goes through the parser, the test for a
notification and the decoding of a request before it is dispatched, and a reply
is written before the next payload is read.
-/

namespace DbClinic.Mcp

open DbClinic.Serde (Value Number)

structure McpTool where
  name : String
  description : Option String
  inputSchema : Option Value
  annotations : Option Value
  metaData : Option Value

structure McpToolCallParams where
  name : String
  arguments : Option Value
  metaData : Option Value

/-- What the server uses of `serde_json`: the parser, the texts of the errors of
derived decoders, and the printer, which fails on no response. -/
structure SerdeJson where
  fromSlice : List UInt8 → Except SerdeError Value
  requestError : Value → SerdeError
  callParamsError : Value → SerdeError
  toVec : JsonRpcResponse Value → Except SerdeError Bytes
  toVec_ok : ∀ response, ∃ body, toVec response = .ok body

def SerdeJson.body (json : SerdeJson) (response : JsonRpcResponse Value) : Bytes :=
  match json.toVec response with
  | .ok body => body
  | .error _ => ⟨[], Nat.zero_le _⟩

theorem SerdeJson.toVec_eq (json : SerdeJson) (response : JsonRpcResponse Value) :
    json.toVec response = .ok (json.body response) := by
  obtain ⟨body, hbody⟩ := json.toVec_ok response
  rw [SerdeJson.body, hbody]

/-- The variants of an id, in turn. -/
def JsonRpcId.ofValue : Value → Option JsonRpcId
  | .number (.unsigned value) => some (.number value)
  | .string value => some (.string value)
  | .null => some .null
  | _ => none

def JsonRpcId.toValue : JsonRpcId → Value
  | .number value => .number (.unsigned value)
  | .string value => .string value
  | .null => .null

/-- A member that may be absent; `null` counts as absent. -/
def optionalMember : Option Value → Option Value
  | some .null => none
  | member => member

def requestOf (jsonrpc id method : Value) (params : Option Value) :
    Option (JsonRpcRequest Value) := do
  let jsonrpc ← jsonrpc.asStr
  let id ← JsonRpcId.ofValue id
  let method ← method.asStr
  return ⟨jsonrpc, id, method, optionalMember params⟩

/-- `from_value::<JsonRpcRequest<JsonValue>>`. A derived decoder takes the fields
in a row as well. -/
def decodeRequest : Value → Option (JsonRpcRequest Value)
  | .array [jsonrpc, id, method, params] => requestOf jsonrpc id method (some params)
  | .object entries => do
    let message := Value.object entries
    requestOf (← message.get "jsonrpc") (← message.get "id") (← message.get "method")
      (message.get "params")
  | _ => none

def callParamsOf (name : Value) (arguments metaData : Option Value) : Option McpToolCallParams := do
  let name ← name.asStr
  return ⟨name, optionalMember arguments, optionalMember metaData⟩

/-- `from_value::<McpToolCallParams>`. -/
def decodeCallParams : Value → Option McpToolCallParams
  | .array [name, arguments, metaData] => callParamsOf name (some arguments) (some metaData)
  | .object entries => do
    let params := Value.object entries
    callParamsOf (← params.get "name") (params.get "arguments") (params.get "_meta")
  | _ => none

/-- A member that is skipped when it is `None`. -/
def skipNone (key : String) (member : Option Value) : List (String × Value) :=
  match member with
  | some value => [(key, value)]
  | none => []

def McpTool.toValue (tool : McpTool) : Value :=
  .object (skipNone "_meta" tool.metaData ++ skipNone "annotations" tool.annotations ++
    skipNone "description" (tool.description.map .string) ++
    skipNone "inputSchema" tool.inputSchema ++ [("name", .string tool.name)])

def resultResponse (id : JsonRpcId) (result : Value) : JsonRpcResponse Value :=
  ⟨"2.0", id, some result, none⟩

def errorResponse (id : JsonRpcId) (code : Int) (message : String) : JsonRpcResponse Value :=
  ⟨"2.0", id, none, some ⟨code, message, none⟩⟩

structure McpServerSpec where
  serverName : String
  serverVersion : String
  tools : List McpTool
  toolHandler : String → Value → Except String String

namespace McpServer

def protocolVersion : String := "2025-03-26"

def handleInitialize (spec : McpServerSpec) (id : JsonRpcId) : JsonRpcResponse Value :=
  resultResponse id (.object [
    ("capabilities", .object [("tools", .object [])]),
    ("protocolVersion", .string protocolVersion),
    ("serverInfo", .object [
      ("name", .string spec.serverName), ("version", .string spec.serverVersion)])])

def handleToolsList (spec : McpServerSpec) (id : JsonRpcId) : JsonRpcResponse Value :=
  resultResponse id (.object [("tools", .array (spec.tools.map McpTool.toValue))])

def invalidParamsResponse (id : JsonRpcId) (message : String) : JsonRpcResponse Value :=
  errorResponse id (-32602) message

def toolOutcome : Except String String → String × Bool
  | .ok text => (text, false)
  | .error message => (message, true)

def handleToolsCall (json : SerdeJson) (spec : McpServerSpec) (id : JsonRpcId)
    (params : Option Value) : JsonRpcResponse Value :=
  match params with
  | none => invalidParamsResponse id "missing params for tools/call"
  | some params =>
    match decodeCallParams params with
    | none => invalidParamsResponse id
        ("invalid tools/call params: " ++ (json.callParamsError params).message)
    | some call =>
      let arguments := call.arguments.getD (.object [])
      let outcome := toolOutcome (spec.toolHandler call.name arguments)
      resultResponse id (.object [
        ("content", .array [
          .object [("text", .string outcome.1), ("type", .string "text")]]),
        ("isError", .bool outcome.2),
        ("structuredContent", .null)])

def dispatch (json : SerdeJson) (spec : McpServerSpec) (request : JsonRpcRequest Value) :
    JsonRpcResponse Value :=
  if request.method = "initialize" then handleInitialize spec request.id
  else if request.method = "tools/list" then handleToolsList spec request.id
  else if request.method = "tools/call" then handleToolsCall json spec request.id request.params
  else errorResponse request.id (-32601) ("method not found: " ++ request.method)

/-- The reply to one payload. A message without an `id` is taken for a
notification, whatever its shape. -/
def reply (json : SerdeJson) (spec : McpServerSpec) (payload : List UInt8) :
    Option (JsonRpcResponse Value) :=
  match json.fromSlice payload with
  | .error error => some (errorResponse .null (-32700) ("parse error: " ++ error.message))
  | .ok message =>
    if (message.get "id").isNone then none
    else
      match decodeRequest message with
      | none => some (errorResponse .null (-32600)
          ("invalid request: " ++ (json.requestError message).message))
      | some request => some (dispatch json spec request)

/-- One round of the loop: what is written for a payload. -/
def handlePayload (json : SerdeJson) (spec : McpServerSpec) (stdout payload : List UInt8) :
    List UInt8 × Except IoError Unit :=
  match reply json spec payload with
  | none => (stdout, .ok ())
  | some response =>
    match writeResponse json.toVec stdout response with
    | .error error => (stdout, .error error)
    | .ok stdout => (stdout, .ok ())

/-- What is written for an input, and how the loop ends. -/
def run (json : SerdeJson) (spec : McpServerSpec) (stdin : List UInt8) :
    List UInt8 × Except IoError Unit :=
  frameReader.drive (handlePayload json spec) [] stdin

end McpServer

end DbClinic.Mcp
