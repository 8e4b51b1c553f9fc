import DbClinic.Lib.OrderedMap
import DbClinic.Runtime.Permissions

/-!
The translation of OpenAI-compatible chunks into message events. Block indices
are 32-bit numbers, and the source is built with overflow checks: an index that
does not fit ends the translation (`none`). No other error exists. Positions in
the arguments of a tool call are counted in characters.
-/

namespace DbClinic.Api

open DbClinic.Runtime (Value)

structure Usage where
  inputTokens : Nat
  cacheCreationInputTokens : Nat
  cacheReadInputTokens : Nat
  outputTokens : Nat
  deriving DecidableEq

def Usage.zero : Usage := ⟨0, 0, 0, 0⟩

inductive OutputContentBlock where
  | text (text : String)
  | toolUse (id name : String) (input : Value)
  | thinking (thinking : String) (signature : Option String)
  | redactedThinking (data : Value)

inductive ContentBlockDelta where
  | textDelta (text : String)
  | inputJsonDelta (partialJson : String)
  | thinkingDelta (thinking : String)
  | signatureDelta (signature : String)
  deriving DecidableEq

structure MessageResponse where
  id : String
  kind : String
  role : String
  content : List OutputContentBlock
  model : String
  stopReason : Option String
  stopSequence : Option String
  usage : Usage
  requestId : Option String

inductive StreamEvent where
  | messageStart (message : MessageResponse)
  | messageDelta (stopReason stopSequence : Option String) (usage : Usage)
  | contentBlockStart (index : Nat) (contentBlock : OutputContentBlock)
  | contentBlockDelta (index : Nat) (delta : ContentBlockDelta)
  | contentBlockStop (index : Nat)
  | messageStop

structure OpenAiUsage where
  promptTokens : Nat
  completionTokens : Nat
  deriving DecidableEq

structure DeltaFunction where
  name : Option String
  arguments : Option String
  deriving DecidableEq

structure DeltaToolCall where
  index : Nat
  id : Option String
  function : DeltaFunction
  deriving DecidableEq

structure ChunkDelta where
  content : Option String
  reasoningContent : Option String
  toolCalls : List DeltaToolCall
  deriving DecidableEq

structure ChunkChoice where
  delta : ChunkDelta
  finishReason : Option String
  deriving DecidableEq

structure ChatCompletionChunk where
  id : String
  model : Option String
  choices : List ChunkChoice
  usage : Option OpenAiUsage
  deriving DecidableEq

structure ToolCallState where
  openaiIndex : Nat
  id : Option String
  name : Option String
  arguments : String
  emittedLen : Nat
  started : Bool
  stopped : Bool
  deriving DecidableEq

namespace ToolCallState

def default : ToolCallState := ⟨0, none, none, "", 0, false, false⟩

def apply (state : ToolCallState) (toolCall : DeltaToolCall) : ToolCallState :=
  { state with
    openaiIndex := toolCall.index
    id := toolCall.id.or state.id
    name := toolCall.function.name.or state.name
    arguments := state.arguments ++ toolCall.function.arguments.getD "" }

def blockIndex (state : ToolCallState) (offset : Nat) : Option Nat :=
  if state.openaiIndex + offset < 2 ^ 32 then some (state.openaiIndex + offset) else none

def startEvent (state : ToolCallState) (offset : Nat) : Option (Option StreamEvent) :=
  match state.name with
  | none => some none
  | some name => do
    let id := state.id.getD ("tool_call_" ++ toString state.openaiIndex)
    let index ← state.blockIndex offset
    return some (.contentBlockStart index (.toolUse id name (.object [])))

def deltaEvent (state : ToolCallState) (offset : Nat) :
    Option (ToolCallState × Option StreamEvent) :=
  if state.emittedLen ≥ state.arguments.length then some (state, none)
  else do
    let rest := String.ofList (state.arguments.toList.drop state.emittedLen)
    let index ← state.blockIndex offset
    return ({ state with emittedLen := state.arguments.length },
      some (.contentBlockDelta index (.inputJsonDelta rest)))

end ToolCallState

structure StreamState where
  model : String
  messageStarted : Bool
  textStarted : Bool
  textFinished : Bool
  finished : Bool
  stopReason : Option String
  usage : Option Usage
  toolCalls : OrderedMap ToolCallState
  thinkingStarted : Bool
  thinkingFinished : Bool

def normalizeFinishReason (value : String) : String :=
  if value = "stop" then "end_turn" else if value = "tool_calls" then "tool_use" else value

namespace StreamState

def new (model : String) : StreamState where
  model := model
  messageStarted := false
  textStarted := false
  textFinished := false
  finished := false
  stopReason := none
  usage := none
  toolCalls := OrderedMap.empty
  thinkingStarted := false
  thinkingFinished := false

def textBlockIndex (s : StreamState) : Nat := if s.thinkingStarted then 1 else 0

def toolIndexOffset (s : StreamState) : Nat := if s.thinkingStarted then 2 else 1

def closeThinking (s : StreamState) : StreamState × List StreamEvent :=
  if s.thinkingStarted && !s.thinkingFinished then
    ({ s with thinkingFinished := true }, [.contentBlockStop 0])
  else (s, [])

def ingestReasoning (s : StreamState) (reasoning : String) : StreamState × List StreamEvent :=
  if reasoning = "" then (s, [])
  else
    let opening : List StreamEvent :=
      if s.thinkingStarted then [] else [.contentBlockStart 0 (.thinking "" none)]
    ({ s with thinkingStarted := true },
      opening ++ [.contentBlockDelta 0 (.thinkingDelta reasoning)])

def ingestContent (s : StreamState) (content : String) : StreamState × List StreamEvent :=
  if content = "" then (s, [])
  else
    let closed := s.closeThinking
    let index := closed.1.textBlockIndex
    let opening : List StreamEvent :=
      if s.textStarted then [] else [.contentBlockStart index (.text "")]
    ({ closed.1 with textStarted := true },
      closed.2 ++ opening ++ [.contentBlockDelta index (.textDelta content)])

/-- What a fragment makes of the state of its tool call: the block is opened
once the call has a name, and closed at once when the choice ends in
`tool_calls`. -/
def advanceTool (finishing : Bool) (offset : Nat) (state : ToolCallState) :
    Option (ToolCallState × List StreamEvent) := do
  let index ← state.blockIndex offset
  let opening ← (if state.started then some (some []) else
    (state.startEvent offset).map fun start => start.map fun event => [event])
  match opening with
  | none => return (state, [])
  | some opening =>
    let emitted ← { state with started := true }.deltaEvent offset
    let stops := finishing && !state.stopped
    return ({ emitted.1 with stopped := state.stopped || stops },
      opening ++ emitted.2.toList ++ if stops then [.contentBlockStop index] else [])

def ingestToolCall (finishing : Bool) (s : StreamState) (toolCall : DeltaToolCall) :
    Option (StreamState × List StreamEvent) := do
  let closed := s.closeThinking
  let old := (closed.1.toolCalls.get toolCall.index).getD ToolCallState.default
  let advanced ← advanceTool finishing closed.1.toolIndexOffset (old.apply toolCall)
  let toolCalls := closed.1.toolCalls.upsert toolCall.index fun _ => advanced.1
  return ({ closed.1 with toolCalls }, closed.2 ++ advanced.2)

def ingestToolCalls (finishing : Bool) :
    StreamState → List DeltaToolCall → Option (StreamState × List StreamEvent)
  | s, [] => some (s, [])
  | s, toolCall :: rest => do
    let first ← ingestToolCall finishing s toolCall
    let others ← ingestToolCalls finishing first.1 rest
    return (others.1, first.2 ++ others.2)

def stopTool (offset : Nat) (state : ToolCallState) : Option (ToolCallState × List StreamEvent) :=
  if state.started && !state.stopped then do
    let index ← state.blockIndex offset
    return ({ state with stopped := true }, [.contentBlockStop index])
  else some (state, [])

def forTools (change : ToolCallState → Option (ToolCallState × List StreamEvent)) :
    List (Nat × ToolCallState) → Option (List (Nat × ToolCallState) × List StreamEvent)
  | [] => some ([], [])
  | (key, state) :: rest => do
    let first ← change state
    let others ← forTools change rest
    return ((key, first.1) :: others.1, first.2 ++ others.2)

theorem forTools_keys {change : ToolCallState → Option (ToolCallState × List StreamEvent)}
    {entries : List (Nat × ToolCallState)}
    {result : List (Nat × ToolCallState) × List StreamEvent}
    (h : forTools change entries = some result) :
    result.1.map Prod.fst = entries.map Prod.fst := by
  induction entries generalizing result with
  | nil =>
    cases h
    rfl
  | cons e rest ih =>
    obtain ⟨key, state⟩ := e
    simp only [forTools, Option.bind_eq_bind, Option.bind_eq_some_iff] at h
    obtain ⟨first, -, others, hothers, heq⟩ := h
    cases heq
    simp [ih hothers]

def changeTools (change : ToolCallState → Option (ToolCallState × List StreamEvent))
    (s : StreamState) : Option (StreamState × List StreamEvent) :=
  match h : forTools change s.toolCalls.entries with
  | none => none
  | some result =>
    some ({ s with toolCalls := ⟨result.1, forTools_keys h ▸ s.toolCalls.sorted⟩ }, result.2)

def ingestFinishReason (s : StreamState) (finishReason : String) :
    Option (StreamState × List StreamEvent) :=
  let s := { s with stopReason := some (normalizeFinishReason finishReason) }
  if finishReason = "tool_calls" then changeTools (stopTool s.toolIndexOffset) s
  else some (s, [])

def endChoice (s : StreamState) :
    (finishReason : Option String) → Option (StreamState × List StreamEvent)
  | none => some (s, [])
  | some finishReason => s.ingestFinishReason finishReason

def ingestChoice (s : StreamState) (choice : ChunkChoice) :
    Option (StreamState × List StreamEvent) := do
  let thought := s.ingestReasoning (choice.delta.reasoningContent.getD "")
  let said := thought.1.ingestContent (choice.delta.content.getD "")
  let called ← ingestToolCalls (choice.finishReason = some "tool_calls") said.1
    choice.delta.toolCalls
  let ended ← endChoice called.1 choice.finishReason
  return (ended.1, thought.2 ++ said.2 ++ called.2 ++ ended.2)

def ingestChoices : StreamState → List ChunkChoice → Option (StreamState × List StreamEvent)
  | s, [] => some (s, [])
  | s, choice :: rest => do
    let first ← ingestChoice s choice
    let others ← ingestChoices first.1 rest
    return (others.1, first.2 ++ others.2)

def startMessage (s : StreamState) (chunk : ChatCompletionChunk) :
    StreamState × List StreamEvent :=
  if s.messageStarted then (s, [])
  else
    ({ s with messageStarted := true },
      [.messageStart
        { id := chunk.id
          kind := "message"
          role := "assistant"
          content := []
          model := chunk.model.getD s.model
          stopReason := none
          stopSequence := none
          usage := Usage.zero
          requestId := none }])

def ingestChunk (s : StreamState) (chunk : ChatCompletionChunk) :
    Option (StreamState × List StreamEvent) := do
  let opened := s.startMessage chunk
  let usage := (chunk.usage.map fun u => ⟨u.promptTokens, 0, 0, u.completionTokens⟩).or
    opened.1.usage
  let ingested ← ingestChoices { opened.1 with usage } chunk.choices
  return (ingested.1, opened.2 ++ ingested.2)

/-- The end of a tool call: a block that was not opened is opened now, if the
call has a name, and every open block is closed. -/
def finishTool (offset : Nat) (state : ToolCallState) :
    Option (ToolCallState × List StreamEvent) := do
  let opening ← (if state.started then some none else state.startEvent offset)
  match opening with
  | none => stopTool offset state
  | some start =>
    let emitted ← { state with started := true }.deltaEvent offset
    let stopped ← stopTool offset emitted.1
    return (stopped.1, start :: emitted.2.toList ++ stopped.2)

def closeText (s : StreamState) : StreamState × List StreamEvent :=
  if s.textStarted && !s.textFinished then
    ({ s with textFinished := true }, [.contentBlockStop s.textBlockIndex])
  else (s, [])

def endMessage (s : StreamState) : List StreamEvent :=
  if s.messageStarted then
    [.messageDelta (some (s.stopReason.getD "end_turn")) none (s.usage.getD Usage.zero),
      .messageStop]
  else []

def finish (s : StreamState) : Option (StreamState × List StreamEvent) :=
  if s.finished then some (s, [])
  else do
    let thought := { s with finished := true }.closeThinking
    let said := thought.1.closeText
    let called ← changeTools (finishTool said.1.toolIndexOffset) said.1
    return (called.1, thought.2 ++ said.2 ++ called.2 ++ called.1.endMessage)

def ingestChunks : StreamState → List ChatCompletionChunk →
    Option (StreamState × List StreamEvent)
  | s, [] => some (s, [])
  | s, chunk :: rest => do
    let first ← ingestChunk s chunk
    let others ← ingestChunks first.1 rest
    return (others.1, first.2 ++ others.2)

def events (model : String) (chunks : List ChatCompletionChunk) : Option (List StreamEvent) := do
  let ingested ← ingestChunks (new model) chunks
  let finished ← ingested.1.finish
  return ingested.2 ++ finished.2

end StreamState

end DbClinic.Api
