import DbClinic.Api.StreamState
import DbClinic.Lib.Blocks

/-!
The translation seen fragment by fragment. The chunks of a stream are one list
of inputs, and every input changes the state and emits events; of the events,
the ones of blocks are kept apart with the kind of the block they belong to.
-/

namespace DbClinic.Api

open Blocks List

inductive BlockKind where
  | text
  | toolUse
  | thinking
  deriving DecidableEq

def OutputContentBlock.blockKind : OutputContentBlock → BlockKind
  | text _ => .text
  | toolUse .. => .toolUse
  | thinking .. | redactedThinking _ => .thinking

def ContentBlockDelta.blockKind : ContentBlockDelta → BlockKind
  | textDelta _ => .text
  | inputJsonDelta _ => .toolUse
  | thinkingDelta _ | signatureDelta _ => .thinking

def StreamEvent.block : StreamEvent → Option (BlockEvent Nat BlockKind)
  | contentBlockStart index contentBlock => some (.start index contentBlock.blockKind)
  | contentBlockDelta index delta => some (.delta index delta.blockKind)
  | contentBlockStop index => some (.stop index)
  | messageStart _ | messageDelta .. | messageStop => none

def blocksOf (events : List StreamEvent) : List (BlockEvent Nat BlockKind) :=
  events.filterMap StreamEvent.block

@[simp] theorem blocksOf_nil : blocksOf [] = [] := rfl

@[simp] theorem blocksOf_append (xs ys : List StreamEvent) :
    blocksOf (xs ++ ys) = blocksOf xs ++ blocksOf ys :=
  filterMap_append

@[simp] theorem blocksOf_start (i : Nat) (b : OutputContentBlock) (rest : List StreamEvent) :
    blocksOf (.contentBlockStart i b :: rest) = .start i b.blockKind :: blocksOf rest := rfl

@[simp] theorem blocksOf_delta (i : Nat) (d : ContentBlockDelta) (rest : List StreamEvent) :
    blocksOf (.contentBlockDelta i d :: rest) = .delta i d.blockKind :: blocksOf rest := rfl

@[simp] theorem blocksOf_stop (i : Nat) (rest : List StreamEvent) :
    blocksOf (.contentBlockStop i :: rest) = .stop i :: blocksOf rest := rfl

/-- A part of a chunk, in the order in which the translation reads it. -/
inductive Input where
  | chunk (chunk : ChatCompletionChunk)
  | reasoning (text : String)
  | content (text : String)
  | toolCall (finishing : Bool) (call : DeltaToolCall)
  | finishReason (reason : String)

def ChunkChoice.inputs (choice : ChunkChoice) : List Input :=
  [.reasoning (choice.delta.reasoningContent.getD ""), .content (choice.delta.content.getD "")] ++
    choice.delta.toolCalls.map (.toolCall (choice.finishReason = some "tool_calls")) ++
    choice.finishReason.toList.map .finishReason

def ChatCompletionChunk.inputs (chunk : ChatCompletionChunk) : List Input :=
  .chunk chunk :: chunk.choices.flatMap ChunkChoice.inputs

def inputsOf (chunks : List ChatCompletionChunk) : List Input :=
  chunks.flatMap ChatCompletionChunk.inputs

namespace StreamState

def ingestOpening (s : StreamState) (chunk : ChatCompletionChunk) :
    StreamState × List StreamEvent :=
  let opened := s.startMessage chunk
  ({ opened.1 with
      usage := (chunk.usage.map fun u => ⟨u.promptTokens, 0, 0, u.completionTokens⟩).or
        opened.1.usage }, opened.2)

def ingest (s : StreamState) : Input → Option (StreamState × List StreamEvent)
  | .chunk chunk => some (s.ingestOpening chunk)
  | .reasoning text => some (s.ingestReasoning text)
  | .content text => some (s.ingestContent text)
  | .toolCall finishing call => ingestToolCall finishing s call
  | .finishReason reason => s.ingestFinishReason reason

def ingestAll : StreamState → List Input → Option (StreamState × List StreamEvent)
  | s, [] => some (s, [])
  | s, input :: rest => do
    let first ← s.ingest input
    let others ← ingestAll first.1 rest
    return (others.1, first.2 ++ others.2)

theorem ingestAll_append (s : StreamState) (xs ys : List Input) :
    s.ingestAll (xs ++ ys) = (s.ingestAll xs).bind fun first =>
      (first.1.ingestAll ys).bind fun others => some (others.1, first.2 ++ others.2) := by
  induction xs generalizing s with
  | nil =>
    cases h : s.ingestAll ys <;> simp [ingestAll, h]
  | cons input rest ih =>
    simp only [cons_append, ingestAll, Option.bind_eq_bind, Option.bind_assoc]
    refine congrArg _ (funext fun first => ?_)
    rw [ih]
    cases h : first.1.ingestAll rest with
    | none => rfl
    | some others =>
      cases h' : others.1.ingestAll ys with
      | none => simp [h']
      | some last => simp [h', append_assoc]

theorem ingestToolCalls_eq (finishing : Bool) (s : StreamState) (calls : List DeltaToolCall) :
    ingestToolCalls finishing s calls = s.ingestAll (calls.map (.toolCall finishing)) := by
  induction calls generalizing s with
  | nil => rfl
  | cons call rest ih =>
    simp only [ingestToolCalls, map_cons, ingestAll, ingest, ih]

theorem endChoice_eq (s : StreamState) (finishReason : Option String) :
    s.endChoice finishReason = s.ingestAll (finishReason.toList.map .finishReason) := by
  cases finishReason with
  | none => rfl
  | some reason =>
    change s.ingestFinishReason reason = (s.ingestFinishReason reason).bind fun first => _
    cases s.ingestFinishReason reason with
    | none => rfl
    | some first => simp [ingestAll]

theorem ingestChoice_eq (s : StreamState) (choice : ChunkChoice) :
    s.ingestChoice choice = s.ingestAll choice.inputs := by
  unfold ingestChoice ChunkChoice.inputs
  rw [append_assoc, cons_append, cons_append, nil_append]
  simp only [ingestAll, ingest, Option.bind_eq_bind, Option.bind_some, ingestAll_append,
    ingestToolCalls_eq, endChoice_eq]
  cases hcalled : ingestAll _ (choice.delta.toolCalls.map (.toolCall
      (decide (choice.finishReason = some "tool_calls")))) with
  | none => rfl
  | some called =>
    simp only [Option.bind_some]
    cases ingestAll called.1 (choice.finishReason.toList.map .finishReason) with
    | none => rfl
    | some ended => simp [append_assoc]

theorem ingestChoices_eq (s : StreamState) (choices : List ChunkChoice) :
    s.ingestChoices choices = s.ingestAll (choices.flatMap ChunkChoice.inputs) := by
  induction choices generalizing s with
  | nil => rfl
  | cons choice rest ih =>
    rw [flatMap_cons, ingestAll_append, ← ingestChoice_eq, ingestChoices]
    simp only [ih]
    rfl

theorem ingestChunk_eq (s : StreamState) (chunk : ChatCompletionChunk) :
    s.ingestChunk chunk = s.ingestAll chunk.inputs := by
  unfold ingestChunk ChatCompletionChunk.inputs
  simp only [ingestAll, ingest, ingestChoices_eq, ingestOpening, Option.bind_eq_bind,
    Option.bind_some]

theorem ingestChunks_eq (s : StreamState) (chunks : List ChatCompletionChunk) :
    s.ingestChunks chunks = s.ingestAll (inputsOf chunks) := by
  induction chunks generalizing s with
  | nil => rfl
  | cons chunk rest ih =>
    rw [inputsOf, flatMap_cons, ingestAll_append, ← ingestChunk_eq, ingestChunks]
    simp only [ih, inputsOf]
    rfl

end StreamState

end DbClinic.Api
