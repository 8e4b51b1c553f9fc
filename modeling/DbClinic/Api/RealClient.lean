import DbClinic.Lib.Assembly
import DbClinic.Api.StreamState
import DbClinic.Runtime.Conversation

/-!
The collection of a provider's stream into assistant events, and what the message
that is built of them keeps. A block of a tool use or of thinking is gathered
under its index and becomes an event when the index is stopped. The JSON printer
of the library is a parameter.
-/

namespace DbClinic.RealClient

open DbClinic.Api DbClinic.Runtime DbClinic.Assembly

/-- The events of a stream, and what it ends with in place of an end. -/
structure ProviderStream where
  events : List StreamEvent
  failure : Option RuntimeError

structure Collector where
  events : List AssistantEvent
  pendingTools : KeyMap Nat ToolUse
  pendingThinking : KeyMap Nat (String × Option String)
  sawStop : Bool
  /-- What was offered to the sink. -/
  sent : List AssistantEvent

namespace Collector

def new : Collector := ⟨[], KeyMap.empty, KeyMap.empty, false, []⟩

def emit (c : Collector) (event : AssistantEvent) : Collector :=
  { c with sent := c.sent ++ [event] }

def push (c : Collector) (event : AssistantEvent) : Collector :=
  { c with events := c.events ++ [event] }

def pushText (c : Collector) (text : String) : Collector :=
  if text = "" then c else (c.emit (.textDelta text)).push (.textDelta text)

/-- The input a tool use starts with; of an empty object nothing is kept. -/
def initialInput (toStr : Value → String) : Value → String
  | .object [] => ""
  | input => toStr input

def pushOutputBlock (toStr : Value → String) (c : Collector) (blockIndex : Nat) :
    OutputContentBlock → Collector
  | .text text => c.pushText text
  | .toolUse id name input =>
    { c with
      pendingTools := c.pendingTools.insert blockIndex ⟨id, name, initialInput toStr input⟩ }
  | .thinking thinking signature =>
    { c with pendingThinking := c.pendingThinking.insert blockIndex (thinking, signature) }
  | .redactedThinking _ => c

def tokenUsage (usage : Usage) : TokenUsage where
  inputTokens := usage.inputTokens
  outputTokens := usage.outputTokens
  cacheCreationInputTokens := usage.cacheCreationInputTokens
  cacheReadInputTokens := usage.cacheReadInputTokens

def handleDelta (c : Collector) (index : Nat) : ContentBlockDelta → Collector
  | .textDelta text => c.pushText text
  | .inputJsonDelta partialJson =>
    match c.pendingTools.get index with
    | some use =>
      { c with pendingTools :=
          c.pendingTools.update index { use with input := use.input ++ partialJson } }
    | none => c
  | .thinkingDelta thinking =>
    match c.pendingThinking.get index with
    | some (pending, signature) =>
      { c with pendingThinking :=
          c.pendingThinking.update index (pending ++ thinking, signature) }.emit
        (.thinking thinking none)
    | none => c.emit (.thinking thinking none)
  | .signatureDelta signature =>
    match c.pendingThinking.get index with
    | some (pending, found) =>
      { c with pendingThinking :=
          c.pendingThinking.update index (pending, some (found.getD "" ++ signature)) }
    | none => c

def thinkingEvent (block : String × Option String) : AssistantEvent := .thinking block.1 block.2

def toolEvent (use : ToolUse) : AssistantEvent := .toolUse use.id use.name use.input

def handle (toStr : Value → String) (c : Collector) : StreamEvent → Collector
  | .messageStart message =>
    message.content.foldl (fun c block => c.pushOutputBlock toStr 0 block) c
  | .contentBlockStart index contentBlock => c.pushOutputBlock toStr index contentBlock
  | .contentBlockDelta index delta => c.handleDelta index delta
  | .contentBlockStop index =>
    { c with
      events := c.events ++ ((c.pendingThinking.get index).map thinkingEvent).toList ++
        ((c.pendingTools.get index).map toolEvent).toList
      pendingThinking := c.pendingThinking.erase index
      pendingTools := c.pendingTools.erase index }
  | .messageDelta _ _ usage =>
    (c.emit (.usage (tokenUsage usage))).push (.usage (tokenUsage usage))
  | .messageStop => { (c.emit .messageStop).push .messageStop with sawStop := true }

/-- Text that is not empty, or a tool use: for these the end of a stream stands
for the stop of the message. -/
def isContent : AssistantEvent → Bool
  | .textDelta text => text ≠ ""
  | .toolUse _ _ _ => true
  | _ => false

def finish (c : Collector) : List AssistantEvent :=
  if c.sawStop = false ∧ c.events.any isContent then c.events ++ [.messageStop] else c.events

end Collector

def collect (toStr : Value → String) (events : List StreamEvent) : Collector :=
  events.foldl (Collector.handle toStr) .new

/-- The result, and what was offered to the sink. -/
def streamAndCollect (toStr : Value → String) (opened : Except RuntimeError ProviderStream) :
    Except RuntimeError (List AssistantEvent) × List AssistantEvent :=
  match opened with
  | .error e => (.error e, [])
  | .ok stream =>
    let c := collect toStr stream.events
    match stream.failure with
    | some e => (.error e, c.sent)
    | none => (.ok c.finish, c.sent)

abbrev ToolPiece := Piece Nat ToolUse String String

abbrev ThinkingPiece := Piece Nat (String × Option String) ContentBlockDelta String

def extendTool (use : ToolUse) (partialJson : String) : ToolUse :=
  { use with input := use.input ++ partialJson }

def extendThinking (block : String × Option String) : ContentBlockDelta → String × Option String
  | .thinkingDelta thinking => (block.1 ++ thinking, block.2)
  | .signatureDelta signature => (block.1, some (block.2.getD "" ++ signature))
  | _ => block

def blockText : OutputContentBlock → String
  | .text text => text
  | _ => ""

def toolStart (toStr : Value → String) (index : Nat) : OutputContentBlock → List ToolPiece
  | .toolUse id name input => [.start index ⟨id, name, Collector.initialInput toStr input⟩]
  | _ => []

def thinkingStart (index : Nat) : OutputContentBlock → List ThinkingPiece
  | .thinking thinking signature => [.start index (thinking, signature)]
  | _ => []

def eventText : StreamEvent → String
  | .messageStart message => message.content.foldr (fun block text => blockText block ++ text) ""
  | .contentBlockStart _ contentBlock => blockText contentBlock
  | .contentBlockDelta _ (.textDelta text) => text
  | _ => ""

def toolPieces (toStr : Value → String) (text : String) : StreamEvent → List ToolPiece
  | .messageStart message => message.content.flatMap (toolStart toStr 0)
  | .contentBlockStart index contentBlock => toolStart toStr index contentBlock
  | .contentBlockDelta index (.inputJsonDelta partialJson) => [.fragment index partialJson]
  | .contentBlockStop index => [.stop index text]
  | _ => []

def thinkingPieces (text : String) : StreamEvent → List ThinkingPiece
  | .messageStart message => message.content.flatMap (thinkingStart 0)
  | .contentBlockStart index contentBlock => thinkingStart index contentBlock
  | .contentBlockDelta index (.thinkingDelta thinking) =>
    [.fragment index (.thinkingDelta thinking)]
  | .contentBlockDelta index (.signatureDelta signature) =>
    [.fragment index (.signatureDelta signature)]
  | .contentBlockStop index => [.stop index text]
  | _ => []

def piecesFrom {P : Type} (pieces : String → StreamEvent → List P) (text : String) :
    List StreamEvent → List P
  | [] => []
  | event :: rest => pieces text event ++ piecesFrom pieces (text ++ eventText event) rest

def streamText (events : List StreamEvent) : String :=
  events.foldr (fun event text => eventText event ++ text) ""

def placed {α β : Type} (pick : α → Option β) (textOf : α → String) (text : String) :
    List α → List (β × String)
  | [] => []
  | a :: rest =>
    ((pick a).map fun b => (b, text)).toList ++ placed pick textOf (text ++ textOf a) rest

def joined {α : Type} (textOf : α → String) (as : List α) : String :=
  as.foldr (fun a text => textOf a ++ text) ""

def textOfBlock : ContentBlock → String
  | .text text => text
  | _ => ""

def toolOfBlock : ContentBlock → Option ToolUse
  | .toolUse id name input => some ⟨id, name, input⟩
  | _ => none

def thinkingOfBlock : ContentBlock → Option (String × Option String)
  | .thinking thinking signature => some (thinking, signature)
  | _ => none

def messageTools (message : ConversationMessage) : List (ToolUse × String) :=
  placed toolOfBlock textOfBlock "" message.blocks

def messageThinking (message : ConversationMessage) : List ((String × Option String) × String) :=
  placed thinkingOfBlock textOfBlock "" message.blocks

/-- The tool uses a stream starts, each with its deltas and, if it is stopped,
the text before that. -/
def startedTools (toStr : Value → String) (events : List StreamEvent) :
    List (ToolUse × Option String) :=
  started extendTool (piecesFrom (toolPieces toStr) "" events)

def startedThinking (events : List StreamEvent) :
    List ((String × Option String) × Option String) :=
  started extendThinking (piecesFrom thinkingPieces "" events)

def EndsInTool (toStr : Value → String) (events : List StreamEvent) : Prop :=
  ∃ before index use after, piecesFrom (toolPieces toStr) "" events =
    before ++ .start index use :: after ∧ ∀ text, .stop index text ∉ after

/-- The message has every block that was started once, with all its deltas and
between the texts between which it was stopped; and a stream that ends inside a
tool use gives no message. -/
structure Reassembled (toStr : Value → String) (events : List StreamEvent)
    (message : ConversationMessage) : Prop where
  tools : ((messageTools message).map fun c => (c.1, some c.2)).Perm (startedTools toStr events)
  thinking : ((messageThinking message).map fun c => (c.1, some c.2)).Perm
    (startedThinking events)
  text : joined textOfBlock message.blocks = streamText events
  ended : ¬EndsInTool toStr events

/-- Whatever message comes of the stream, nothing is lost in it. -/
def LosesNothing (toStr : Value → String) (opened : Except RuntimeError ProviderStream) : Prop :=
  ∀ stream collected message usage cacheEvents, opened = .ok stream →
    (streamAndCollect toStr opened).1 = .ok collected →
    buildAssistantMessage collected = .ok (message, usage, cacheEvents) →
    Reassembled toStr stream.events message

/-- The stream has content for a message: text, a tool use that is stopped, or
thinking that is stopped and a stop of the message. -/
def HasContent (toStr : Value → String) (events : List StreamEvent) : Prop :=
  streamText events ≠ "" ∨ SomeStopped (piecesFrom (toolPieces toStr) "" events) ∨
    SomeStopped (piecesFrom thinkingPieces "" events) ∧ .messageStop ∈ events

end DbClinic.RealClient
