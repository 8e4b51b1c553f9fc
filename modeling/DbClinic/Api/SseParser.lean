import DbClinic.Api.SseFrames
import DbClinic.Api.StreamState
import DbClinic.Runtime.Text

/-!
The two decoders of server-sent events: `SseParser`, which gives message events,
and `OpenAiSseParser`, whose chunks a message stream translates. The JSON
deserialisers are parameters. A decoder that is fed a stream stops at the first
error.
-/

namespace DbClinic.Api

open DbClinic.Runtime (isWhitespace stripPrefix textLines trimMatches joinText)

def replacementCharacter : Char := '\uFFFD'

/-- The first character of some bytes, and how many bytes it takes. Bytes that
are no character are replaced, together with those that could have continued
it. -/
def utf8Step (first : UInt8) (rest : List UInt8) : Char × Nat :=
  let b := first.toNat
  let byte (i : Nat) : Nat := (rest.getD i 0).toNat
  let continues (i : Nat) : Bool := 0x80 ≤ byte i && byte i ≤ 0xBF
  let low := if b = 0xE0 then 0xA0 else if b = 0xF0 then 0x90 else 0x80
  let high := if b = 0xED then 0x9F else if b = 0xF4 then 0x8F else 0xBF
  let second : Bool := low ≤ byte 0 && byte 0 ≤ high
  if b < 0x80 then (Char.ofNat b, 1)
  else if 0xC2 ≤ b && b ≤ 0xDF then
    if continues 0 then (Char.ofNat ((b - 0xC0) * 64 + (byte 0 - 0x80)), 2)
    else (replacementCharacter, 1)
  else if 0xE0 ≤ b && b ≤ 0xEF then
    if !second then (replacementCharacter, 1)
    else if !continues 1 then (replacementCharacter, 2)
    else (Char.ofNat ((b - 0xE0) * 4096 + (byte 0 - 0x80) * 64 + (byte 1 - 0x80)), 3)
  else if 0xF0 ≤ b && b ≤ 0xF4 then
    if !second then (replacementCharacter, 1)
    else if !continues 1 then (replacementCharacter, 2)
    else if !continues 2 then (replacementCharacter, 3)
    else (Char.ofNat ((b - 0xF0) * 262144 + (byte 0 - 0x80) * 4096 + (byte 1 - 0x80) * 64 +
      (byte 2 - 0x80)), 4)
  else (replacementCharacter, 1)

/-- `skip` bytes belong to a character that was read already. -/
def lossyFrom : (skip : Nat) → List UInt8 → List Char
  | _, [] => []
  | skip + 1, _ :: rest => lossyFrom skip rest
  | 0, first :: rest => (utf8Step first rest).1 :: lossyFrom ((utf8Step first rest).2 - 1) rest

/-- `String::from_utf8_lossy`. -/
def fromUtf8Lossy (bytes : List UInt8) : List Char := lossyFrom 0 bytes

structure SerdeError where
  message : String
  deriving DecidableEq

inductive ApiError where
  | json (provider model bodySnippet : String) (source : SerdeError)
  | api (status : Nat) (errorType message requestId : Option String) (body : String)
      (retryable : Bool) (suggestedAction : Option String)
  deriving DecidableEq

def truncateBodySnippet (body : String) (maxChars : Nat) : String :=
  if maxChars < body.length then String.ofList (body.toList.take maxChars) ++ "…" else body

def jsonDeserialize (provider model body : String) (source : SerdeError) : ApiError :=
  .json provider model (truncateBodySnippet body 200) source

def suggestedActionForStatus (status : Nat) : Option String :=
  if status = 401 then some "Check API key is set correctly and has not expired"
  else if status = 403 then some "Verify API key has required permissions for this operation"
  else if status = 413 then some "Reduce prompt size or context window before retrying"
  else if status = 429 then some "Wait a moment before retrying; consider reducing request rate"
  else if status = 500 then some "Provider server error - retry after a brief wait"
  else if 502 ≤ status ∧ status ≤ 504 then some "Provider gateway error - retry after a brief wait"
  else none

/-- A JSON value; of a number, what it is as an unsigned integer. -/
inductive RawValue where
  | null
  | bool (value : Bool)
  | number (asU64 : Option Nat)
  | string (text : String)
  | array (items : List RawValue)
  | object (fields : List (String × RawValue))

namespace RawValue

def get (key : String) : RawValue → Option RawValue
  | object fields => (fields.find? fun field => field.1 = key).map Prod.snd
  | _ => none

def asStr : RawValue → Option String
  | string text => some text
  | _ => none

def asU64 : RawValue → Option Nat
  | number value => value
  | _ => none

end RawValue

/-- The JSON deserialisers. -/
structure Serde where
  streamEvent : String → Except SerdeError StreamEvent
  value : String → Option RawValue
  chunk : String → Except SerdeError ChatCompletionChunk

def frameLine (parts : List String × Option (List Char)) (line : List Char) :
    List String × Option (List Char) :=
  if line.head? = some ':' then parts
  else match stripPrefix "event:".toList line with
    | some name => (parts.1, some (trimMatches isWhitespace name))
    | none =>
      match stripPrefix "data:".toList line with
      | some data => (parts.1 ++ [String.ofList (data.dropWhile isWhitespace)], parts.2)
      | none => parts

def parseFrameWithProvider (serde : Serde) (frame : List Char) (provider model : String) :
    Except ApiError (Option StreamEvent) :=
  let trimmed := trimMatches isWhitespace frame
  if trimmed = [] then .ok none
  else
    let parts := (textLines trimmed).foldl frameLine ([], none)
    if parts.2 = some "ping".toList then .ok none
    else if parts.1 = [] then .ok none
    else
      let payload := joinText "\n" parts.1
      if payload = "[DONE]" then .ok none
      else match serde.streamEvent payload with
        | .ok event => .ok (some event)
        | .error error => .error (jsonDeserialize provider model payload error)

/-- A line of a frame of chunks: the data lines so far. -/
def dataLine (dataLines : List String) (line : List Char) : List String :=
  if line.head? = some ':' then dataLines
  else match stripPrefix "data:".toList line with
    | some data => dataLines ++ [String.ofList (data.dropWhile isWhitespace)]
    | none => dataLines

/-- `reqwest::StatusCode::from_u16`, with the status of a bad request for a
number that is no status. -/
def statusOrBadRequest (code : Nat) : Nat := if 100 ≤ code ∧ code < 1000 then code else 400

/-- The error a frame may carry in place of a chunk. -/
def embeddedError (payload : String) (error : RawValue) : ApiError :=
  let message := ((error.get "message").bind RawValue.asStr).getD
    "provider returned an error in stream"
  let code := ((error.get "code").bind RawValue.asU64).map (· % 2 ^ 16)
  let status := statusOrBadRequest (code.getD 400)
  .api status ((error.get "type").bind RawValue.asStr) (some message) none payload false
    (suggestedActionForStatus status)

def parseSseFrame (serde : Serde) (frame : List Char) (provider model : String) :
    Except ApiError (Option ChatCompletionChunk) :=
  let trimmed := trimMatches isWhitespace frame
  if trimmed = [] then .ok none
  else
    let dataLines := (textLines trimmed).foldl dataLine []
    if dataLines = [] then .ok none
    else
      let payload := joinText "\n" dataLines
      if payload = "[DONE]" then .ok none
      else match (serde.value payload).bind (RawValue.get "error") with
        | some error => .error (embeddedError payload error)
        | none =>
          match serde.chunk payload with
          | .ok chunk => .ok (some chunk)
          | .error error => .error (jsonDeserialize provider model payload error)

structure SseParser where
  buffer : List UInt8
  provider : Option String
  model : Option String

namespace SseParser

variable (serde : Serde)

def parseFrameWithContext (p : SseParser) (frame : List UInt8) :
    Except ApiError (Option StreamEvent) :=
  parseFrameWithProvider serde (fromUtf8Lossy frame) (p.provider.getD "unknown")
    (p.model.getD "unknown")

def push (p : SseParser) (chunk : List UInt8) : Except ApiError (List StreamEvent) × SseParser :=
  let result := sseFraming.push (p.parseFrameWithContext serde) (p.buffer ++ chunk)
  (result.1, { p with buffer := result.2 })

def finish (p : SseParser) : Except ApiError (List StreamEvent) × SseParser :=
  if p.buffer = [] then (.ok [], p)
  else ((p.parseFrameWithContext serde p.buffer).map Option.toList, { p with buffer := [] })

def decode (p : SseParser) : List (List UInt8) → List StreamEvent × Option ApiError
  | [] =>
    match (p.finish serde).1 with
    | .ok events => (events, none)
    | .error e => ([], some e)
  | chunk :: chunks =>
    match p.push serde chunk with
    | (.error e, _) => ([], some e)
    | (.ok events, next) => (events ++ (next.decode chunks).1, (next.decode chunks).2)

end SseParser

structure OpenAiSseParser where
  buffer : List UInt8
  provider : String
  model : String

namespace OpenAiSseParser

variable (serde : Serde)

def withContext (provider model : String) : OpenAiSseParser := ⟨[], provider, model⟩

def parse (p : OpenAiSseParser) (frame : List UInt8) :
    Except ApiError (Option ChatCompletionChunk) :=
  parseSseFrame serde (fromUtf8Lossy frame) p.provider p.model

def push (p : OpenAiSseParser) (chunk : List UInt8) :
    Except ApiError (List ChatCompletionChunk) × OpenAiSseParser :=
  let result := sseFraming.push (p.parse serde) (p.buffer ++ chunk)
  (result.1, { p with buffer := result.2 })

def received (p : OpenAiSseParser) : List (List UInt8) → List ChatCompletionChunk
  | [] => []
  | chunk :: chunks =>
    match p.push serde chunk with
    | (.error _, _) => []
    | (.ok parsed, next) => parsed ++ next.received chunks

end OpenAiSseParser

/-- Why a message stream ended early: an error of the decoder, or a block index
that does not fit. -/
inductive Failure where
  | api (error : ApiError)
  | overflow
  deriving DecidableEq

structure MessageStream where
  parser : OpenAiSseParser
  pending : List StreamEvent
  done : Bool
  state : StreamState

namespace MessageStream

variable (serde : Serde)

def new (provider model : String) : MessageStream where
  parser := OpenAiSseParser.withContext provider model
  pending := []
  done := false
  state := StreamState.new model

def receive (m : MessageStream) (chunk : List UInt8) : Except Failure MessageStream :=
  match m.parser.push serde chunk with
  | (.error e, _) => .error (.api e)
  | (.ok parsed, parser) =>
    match m.state.ingestChunks parsed with
    | none => .error .overflow
    | some (state, events) => .ok { m with parser, state, pending := m.pending ++ events }

/-- The end of the response. -/
def finishEvents (m : MessageStream) : Except Failure (Option StreamEvent × MessageStream) :=
  match m.state.finish with
  | none => .error .overflow
  | some (state, []) => .ok (none, { m with state })
  | some (state, event :: rest) => .ok (some event, { m with state, pending := rest })

/-- The next event, with the chunks of the response that were not read yet. -/
def nextEvent : List (List UInt8) → MessageStream →
    Except Failure (Option StreamEvent × MessageStream × List (List UInt8))
  | [], m =>
    match m.pending with
    | event :: rest => .ok (some event, { m with pending := rest }, [])
    | [] => (finishEvents { m with done := true }).map fun found => (found.1, found.2, [])
  | chunk :: chunks, m =>
    match m.pending with
    | event :: rest => .ok (some event, { m with pending := rest }, chunk :: chunks)
    | [] =>
      if m.done then m.finishEvents.map fun found => (found.1, found.2, chunk :: chunks)
      else match m.receive serde chunk with
        | .error failure => .error failure
        | .ok next => nextEvent chunks next

/-- The events of consecutive calls of `nextEvent`, until there is none or one
call fails. -/
inductive Delivers : List (List UInt8) → MessageStream → List StreamEvent → Option Failure → Prop
  | ended {response m found} (h : nextEvent serde response m = .ok (none, found)) :
      Delivers response m [] none
  | failed {response m failure} (h : nextEvent serde response m = .error failure) :
      Delivers response m [] (some failure)
  | event {response m e next later events outcome}
      (h : nextEvent serde response m = .ok (some e, next, later))
      (rest : Delivers later next events outcome) : Delivers response m (e :: events) outcome

end MessageStream

end DbClinic.Api
