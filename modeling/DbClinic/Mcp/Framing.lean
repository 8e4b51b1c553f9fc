import DbClinic.Lib.Framing
import DbClinic.Runtime.Json
import DbClinic.Runtime.Text

/-!
JSON-RPC messages, and the frames with a `Content-Length` header that carry them:
the writers and the readers of the client and of the server. A message goes
through `serde_json`, whose printer and parser are parameters of what uses them.
A stream is the bytes that are still to be read of it, up to its end. A writer's
stream takes all that is written.
-/

namespace DbClinic.Mcp

open DbClinic.Runtime (isWhitespace splitOnce trimMatches)
open DbClinic.Serde (Value Number)

inductive JsonRpcId where
  | number (value : UInt64)
  | string (value : String)
  | null
  deriving DecidableEq

structure JsonRpcRequest (T : Type) where
  jsonrpc : String
  id : JsonRpcId
  method : String
  params : Option T

def JsonRpcRequest.new {T : Type} (id : JsonRpcId) (method : String) (params : Option T) :
    JsonRpcRequest T where
  jsonrpc := "2.0"
  id := id
  method := method
  params := params

structure JsonRpcError where
  code : Int
  message : String
  data : Option Value

structure JsonRpcResponse (T : Type) where
  jsonrpc : String
  id : JsonRpcId
  result : Option T
  error : Option JsonRpcError

inductive IoErrorKind where
  | unexpectedEof
  | invalidData
  | invalidInput
  | other (name : String)
  deriving DecidableEq

structure IoError where
  kind : IoErrorKind
  message : String
  deriving DecidableEq

/-- An error of `serde_json`, by its text. -/
structure SerdeError where
  message : String
  deriving DecidableEq

/-- `isize::MAX`: no vector holds more bytes. -/
def isizeMax : Nat := 2 ^ 63 - 1

/-- The bytes of a `Vec<u8>`. -/
structure Bytes where
  data : List UInt8
  fits : data.length ≤ isizeMax

def encodeUtf8 (cs : List Char) : List UInt8 := cs.flatMap String.utf8EncodeChar

def decodeUtf8 (bytes : List UInt8) : Option (List Char) :=
  bytes.toByteArray.utf8Decode?.map Array.toList

theorem decodeUtf8_encodeUtf8 (cs : List Char) : decodeUtf8 (encodeUtf8 cs) = some cs := by
  have hdecode := @List.utf8Decode?_utf8Encode cs
  unfold List.utf8Encode at hdecode
  rw [decodeUtf8, encodeUtf8, hdecode]
  rfl

def newline : UInt8 := 0x0A

/-- The bytes up to the first line break, which is included. -/
def takeLine : List UInt8 → List UInt8 × List UInt8
  | [] => ([], [])
  | b :: rest =>
    if b = newline then ([b], rest) else (b :: (takeLine rest).1, (takeLine rest).2)

/-- `AsyncBufReadExt::read_line`. -/
def readLine (stream : List UInt8) : Except IoError (List Char × List UInt8) :=
  match decodeUtf8 (takeLine stream).1 with
  | some line => .ok (line, (takeLine stream).2)
  | none => .error ⟨.invalidData, "stream did not contain valid UTF-8"⟩

theorem takeLine_shorter (stream : List UInt8) :
    (takeLine stream).2.length ≤ stream.length - 1 := by
  induction stream with
  | nil => exact le_refl _
  | cons b rest ih =>
    unfold takeLine
    split
    · exact le_refl _
    · simp only [List.length_cons, Nat.add_sub_cancel]
      exact ih.trans (Nat.sub_le _ _)

theorem readLine_shorter {stream rest : List UInt8} {line : List Char} (hne : stream ≠ [])
    (h : readLine stream = .ok (line, rest)) : rest.length < stream.length := by
  have hpos := List.length_pos_iff.mpr hne
  have hle := takeLine_shorter stream
  unfold readLine at h
  split at h
  · cases h
    omega
  · cases h

inductive ParseIntError where
  | empty
  | invalidDigit
  | posOverflow
  deriving DecidableEq

def ParseIntError.text : ParseIntError → String
  | empty => "cannot parse integer from empty string"
  | invalidDigit => "invalid digit found in string"
  | posOverflow => "number too large to fit in target type"

def usizeMax : Nat := 2 ^ 64 - 1

def parseDigits (value : Nat) : List Char → Except ParseIntError Nat
  | [] => .ok value
  | c :: cs =>
    if c.isDigit then
      let next := 10 * value + (c.toNat - '0'.toNat)
      if next ≤ usizeMax then parseDigits next cs else .error .posOverflow
    else .error .invalidDigit

/-- `str::parse::<usize>`. -/
def parseUsize : List Char → Except ParseIntError Nat
  | [] => .error .empty
  | '+' :: [] => .error .invalidDigit
  | '+' :: cs => parseDigits 0 cs
  | cs => parseDigits 0 cs

/-- `str::eq_ignore_ascii_case`. -/
def eqIgnoreAsciiCase (a b : List Char) : Bool := a.map Char.toLower = b.map Char.toLower

def contentLengthName : List Char :=
  ['C', 'o', 'n', 't', 'e', 'n', 't', '-', 'L', 'e', 'n', 'g', 't', 'h']

def isLineEnd (c : Char) : Bool := c = '\r' || c = '\n'

/-- `str::trim_end_matches(['\r', '\n'])`. -/
def trimLineEnd (line : List Char) : List Char := (line.reverse.dropWhile isLineEnd).reverse

def readHeader (contentLength : Option Nat) (line : List Char) : Except IoError (Option Nat) :=
  match splitOnce [':'] (trimLineEnd line) with
  | some (name, value) =>
    if eqIgnoreAsciiCase (trimMatches isWhitespace name) contentLengthName then
      match parseUsize (trimMatches isWhitespace value) with
      | .ok parsed => .ok (some parsed)
      | .error error => .error ⟨.invalidData, error.text⟩
    else .ok contentLength
  | none => .ok contentLength

def streamClosed : IoError :=
  ⟨.unexpectedEof, "MCP stdio stream closed while reading headers"⟩

/-- The loop over the headers of a frame. `ends` is the test for the line that
ends them. -/
def readHeaders (ends : List Char → Bool) (contentLength : Option Nat) (stream : List UInt8) :
    Except IoError (Option Nat × List UInt8) :=
  if _hempty : stream = [] then .error streamClosed
  else
    match _hline : readLine stream with
    | .error error => .error error
    | .ok (line, rest) =>
      if ends line then .ok (contentLength, rest)
      else
        match readHeader contentLength line with
        | .error error => .error error
        | .ok contentLength => readHeaders ends contentLength rest
termination_by stream.length
decreasing_by exact readLine_shorter _hempty _hline

/-- `AsyncReadExt::read_exact`. -/
def readExact (count : Nat) (stream : List UInt8) : Except IoError (List UInt8 × List UInt8) :=
  if count ≤ stream.length then .ok (stream.take count, stream.drop count)
  else .error ⟨.unexpectedEof, "early eof"⟩

def readPayload (headers : Option Nat × List UInt8) : Except IoError (List UInt8 × List UInt8) :=
  match headers.1 with
  | none => .error ⟨.invalidData, "missing Content-Length header"⟩
  | some contentLength => readExact contentLength headers.2

namespace McpStdioProcess

def endsHeaders (line : List Char) : Bool := line = ['\r', '\n']

def readFrame (stdout : List UInt8) : Except IoError (List UInt8 × List UInt8) := do
  let headers ← readHeaders endsHeaders none stdout
  readPayload headers

end McpStdioProcess

namespace McpServer

def endsHeaders (line : List Char) : Bool := line = ['\r', '\n'] || line = ['\n']

/-- The end of the input before the first header is a clean end. -/
def readFrame (stdin : List UInt8) : Except IoError (Option (List UInt8 × List UInt8)) := do
  if stdin = [] then return none
  let headers ← readHeaders endsHeaders none stdin
  let payload ← readPayload headers
  return some payload

end McpServer

def contentLengthHeader (length : Nat) : List UInt8 :=
  encodeUtf8 (contentLengthName ++ [':', ' '] ++ length.repr.toList ++ ['\r', '\n', '\r', '\n'])

def encodeFrame (payload : Bytes) : List UInt8 :=
  contentLengthHeader payload.data.length ++ payload.data

/-- The body of a response, by `serde_json::to_vec`. -/
def McpServer.serialize (toVec : JsonRpcResponse Value → Except SerdeError Bytes)
    (response : JsonRpcResponse Value) : Except IoError Bytes :=
  match toVec response with
  | .ok body => .ok body
  | .error error => .error ⟨.invalidData, error.message⟩

/-- `write_response`: what has been written to the client. -/
def McpServer.writeResponse (toVec : JsonRpcResponse Value → Except SerdeError Bytes)
    (stdout : List UInt8) (response : JsonRpcResponse Value) : Except IoError (List UInt8) := do
  let body ← serialize toVec response
  return stdout ++ contentLengthHeader body.data.length ++ body.data

end DbClinic.Mcp
