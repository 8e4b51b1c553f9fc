import DbClinic.Api.StreamDisorder

/-!
What the events of a translation carry. The text, the thinking and the
arguments of every tool call are emitted as they come, and a tool call that has
a name is announced once.
-/

namespace DbClinic.Api

open Blocks List

def StreamEvent.textChars : StreamEvent → List Char
  | contentBlockDelta _ (.textDelta text) => text.toList
  | _ => []

def StreamEvent.thinkingChars : StreamEvent → List Char
  | contentBlockDelta _ (.thinkingDelta thinking) => thinking.toList
  | _ => []

def StreamEvent.jsonChars (index : Nat) : StreamEvent → List Char
  | contentBlockDelta i (.inputJsonDelta json) => if i = index then json.toList else []
  | _ => []

def StreamEvent.toolStart : StreamEvent → Option Nat
  | contentBlockStart index (.toolUse ..) => some index
  | _ => none

def textOf (events : List StreamEvent) : List Char := events.flatMap StreamEvent.textChars

def thinkingOf (events : List StreamEvent) : List Char := events.flatMap StreamEvent.thinkingChars

/-- The arguments emitted for the block with an index. -/
def jsonOf (index : Nat) (events : List StreamEvent) : List Char :=
  events.flatMap (StreamEvent.jsonChars index)

def toolStarts (events : List StreamEvent) : List Nat := events.filterMap StreamEvent.toolStart

def Input.contentChars : Input → List Char
  | content text => text.toList
  | _ => []

def Input.reasoningChars : Input → List Char
  | reasoning text => text.toList
  | _ => []

def Input.calls : Input → List DeltaToolCall
  | toolCall _ call => [call]
  | _ => []

def argumentsOf (index : Nat) (calls : List DeltaToolCall) : List Char :=
  (calls.filter fun call => call.index = index).flatMap fun call =>
    (call.function.arguments.getD "").toList

@[simp] theorem textOf_append (xs ys : List StreamEvent) :
    textOf (xs ++ ys) = textOf xs ++ textOf ys := flatMap_append

@[simp] theorem thinkingOf_append (xs ys : List StreamEvent) :
    thinkingOf (xs ++ ys) = thinkingOf xs ++ thinkingOf ys := flatMap_append

@[simp] theorem jsonOf_append (i : Nat) (xs ys : List StreamEvent) :
    jsonOf i (xs ++ ys) = jsonOf i xs ++ jsonOf i ys := flatMap_append

@[simp] theorem toolStarts_append (xs ys : List StreamEvent) :
    toolStarts (xs ++ ys) = toolStarts xs ++ toolStarts ys := filterMap_append

theorem argumentsOf_append (i : Nat) (xs ys : List DeltaToolCall) :
    argumentsOf i (xs ++ ys) = argumentsOf i xs ++ argumentsOf i ys := by
  unfold argumentsOf
  rw [filter_append, flatMap_append]

theorem jsonOf_of_absent {events : List StreamEvent} {i : Nat}
    (h : ∀ e ∈ blocksOf events, e.index ≠ i) : jsonOf i events = [] := by
  unfold jsonOf
  rw [flatMap_eq_nil_iff]
  intro e he
  unfold StreamEvent.jsonChars
  split
  · rename_i j json
    have hmem : .delta j .toolUse ∈ blocksOf events := mem_filterMap.mpr ⟨_, he, rfl⟩
    exact if_neg (h _ hmem)
  · rfl

/-- Events that say nothing of a block's contents. -/
structure Silent (events : List StreamEvent) : Prop where
  text : textOf events = []
  thinking : thinkingOf events = []
  json : ∀ i, jsonOf i events = []
  starts : toolStarts events = []

theorem silent_nil : Silent [] := ⟨rfl, rfl, fun _ => rfl, rfl⟩

theorem Silent.append {xs ys : List StreamEvent} (hx : Silent xs) (hy : Silent ys) :
    Silent (xs ++ ys) where
  text := by rw [textOf_append, hx.text, hy.text]; rfl
  thinking := by rw [thinkingOf_append, hx.thinking, hy.thinking]; rfl
  json := fun i => by rw [jsonOf_append, hx.json, hy.json]; rfl
  starts := by rw [toolStarts_append, hx.starts, hy.starts]; rfl

theorem silent_stop (i : Nat) : Silent [.contentBlockStop i] := ⟨rfl, rfl, fun _ => rfl, rfl⟩

namespace StreamState

variable {s next : StreamState} {events : List StreamEvent}

theorem silent_closeThinking (s : StreamState) : Silent s.closeThinking.2 := by
  unfold closeThinking
  split
  · exact silent_stop 0
  · exact silent_nil

theorem silent_stopEvents (offset : Nat) (entries : List (Nat × ToolCallState)) :
    Silent (stopEvents offset entries) := by
  unfold stopEvents
  induction entries.filter fun e => e.2.isOpen with
  | nil => exact silent_nil
  | cons e rest ih => exact (silent_stop (e.1 + offset)).append ih

theorem silent_endEvents (s : StreamState) : Silent s.endEvents := by
  unfold endEvents
  refine ((s.silent_closeThinking.append ?_).append (silent_stopEvents _ _)).append ?_
  · split
    · exact silent_stop _
    · exact silent_nil
  · unfold endMessage
    split
    · exact ⟨rfl, rfl, fun _ => rfl, rfl⟩
    · exact silent_nil

/-- What an input adds to the tool calls and to the contents of the events. -/
structure Effect (s next : StreamState) (input : Input) (events : List StreamEvent) : Prop where
  text : textOf events = input.contentChars
  thinking : thinkingOf events = input.reasoningChars
  arguments : ∀ i,
    (next.tool i).arguments.toList = (s.tool i).arguments.toList ++ argumentsOf i input.calls
  named : ∀ i, (next.tool i).name.isSome = true ↔ (s.tool i).name.isSome = true ∨
    ∃ call ∈ input.calls, call.index = i ∧ call.function.name.isSome = true

variable {input : Input}

theorem effect_of_same (hcalls : input.calls = []) (htext : textOf events = input.contentChars)
    (hthinking : thinkingOf events = input.reasoningChars)
    (htools : ∀ i, (next.tool i).arguments = (s.tool i).arguments ∧
      (next.tool i).name = (s.tool i).name) : Effect s next input events where
  text := htext
  thinking := hthinking
  arguments := by
    intro i
    rw [(htools i).1, hcalls]
    exact (append_nil _).symm
  named := by
    intro i
    rw [(htools i).2, hcalls]
    simp

theorem advanceEvents_text (finishing : Bool) (offset : Nat) (old : ToolCallState)
    (call : DeltaToolCall) :
    textOf (old.advanceEvents finishing offset call) = [] ∧
      thinkingOf (old.advanceEvents finishing offset call) = [] := by
  unfold ToolCallState.advanceEvents
  rw [textOf_append, textOf_append, thinkingOf_append, thinkingOf_append]
  constructor
  · split <;> split <;> split <;> rfl
  · split <;> split <;> split <;> rfl

theorem effect_toolCall (h : s.Regular) {finishing : Bool} {call : DeltaToolCall}
    (hingest : ingestToolCall finishing s call = some (next, events)) :
    Effect s next (.toolCall finishing call) events := by
  rw [ingestToolCall_eq h] at hingest
  split at hingest
  · cases hingest
    have hclose := s.silent_closeThinking
    have hevents : textOf (s.toolEvents finishing call) = [] ∧
        thinkingOf (s.toolEvents finishing call) = [] := by
      unfold toolEvents
      split
      · exact advanceEvents_text ..
      · exact ⟨rfl, rfl⟩
    have hafter : (s.toolAfter finishing call).arguments =
          (s.tool call.index).arguments ++ call.function.arguments.getD "" ∧
        (s.toolAfter finishing call).name = call.function.name.or (s.tool call.index).name := by
      unfold toolAfter
      split <;> exact ⟨rfl, rfl⟩
    have htool (i : Nat) :
        (s.thoughtOver.setTool call.index (s.toolAfter finishing call)).tool i =
          if i = call.index then s.toolAfter finishing call else s.tool i := by
      rw [tool_setTool, Function.update_apply]
      rfl
    refine ⟨?_, ?_, fun i => ?_, fun i => ?_⟩
    · rw [textOf_append, hclose.text, hevents.1]
      rfl
    · rw [thinkingOf_append, hclose.thinking, hevents.2]
      rfl
    · rw [htool]
      by_cases hi : i = call.index
      · subst hi
        rw [if_pos rfl, hafter.1, String.toList_append]
        simp [argumentsOf, Input.calls]
      · have hne : call.index ≠ i := fun heq => hi heq.symm
        rw [if_neg hi]
        simp [argumentsOf, Input.calls, hne]
    · rw [htool]
      by_cases hi : i = call.index
      · subst hi
        rw [if_pos rfl, hafter.2, Option.isSome_or, Bool.or_eq_true]
        simp [Input.calls, or_comm]
      · have hne : call.index ≠ i := fun heq => hi heq.symm
        rw [if_neg hi]
        simp [Input.calls, hne]
  · cases hingest

theorem effect_ingest (h : s.Regular) (hingest : s.ingest input = some (next, events)) :
    Effect s next input events := by
  cases input with
  | chunk chunk =>
    have hstep : s.ingestOpening chunk = (next, events) := Option.some.inj hingest
    have hnext : (s.ingestOpening chunk).1 = next := congrArg Prod.fst hstep
    have hemitted : (s.ingestOpening chunk).2 = events := congrArg Prod.snd hstep
    have hevents : textOf events = [] ∧ thinkingOf events = [] := by
      rw [← hemitted]
      unfold ingestOpening startMessage
      split <;> exact ⟨rfl, rfl⟩
    refine effect_of_same rfl hevents.1 hevents.2 fun i => ?_
    rw [← hnext, ingestOpening_fst]
    exact ⟨rfl, rfl⟩
  | reasoning text =>
    have hstep : s.ingestReasoning text = (next, events) := Option.some.inj hingest
    by_cases htext : text = ""
    · subst htext
      cases hstep
      exact effect_of_same rfl rfl rfl fun i => ⟨rfl, rfl⟩
    · rw [ingestReasoning_eq htext] at hstep
      cases hstep
      refine effect_of_same rfl ?_ ?_ fun i => ⟨rfl, rfl⟩
      · split <;> rfl
      · rw [thinkingOf_append]
        split <;> simp [thinkingOf, StreamEvent.thinkingChars, Input.reasoningChars]
  | content text =>
    have hstep : s.ingestContent text = (next, events) := Option.some.inj hingest
    by_cases htext : text = ""
    · subst htext
      cases hstep
      exact effect_of_same rfl rfl rfl fun i => ⟨rfl, rfl⟩
    · rw [ingestContent_eq htext] at hstep
      cases hstep
      have hclose := s.silent_closeThinking
      refine effect_of_same rfl ?_ ?_ fun i => ⟨rfl, rfl⟩
      · rw [textOf_append, textOf_append, hclose.text]
        split <;> simp [textOf, StreamEvent.textChars, Input.contentChars]
      · rw [thinkingOf_append, thinkingOf_append, hclose.thinking]
        split <;> rfl
  | toolCall finishing call => exact effect_toolCall h hingest
  | finishReason reason =>
    rcases ingestFinishReason_cases h hingest with ⟨-, heq⟩ | ⟨-, heq⟩
    · cases heq
      exact effect_of_same rfl rfl rfl fun i => ⟨rfl, rfl⟩
    · cases heq
      have hsilent := silent_stopEvents s.toolIndexOffset s.toolCalls.entries
      refine effect_of_same rfl hsilent.text hsilent.thinking fun i => ?_
      have htool : ({ s.shutTools with
          stopReason := some (normalizeFinishReason reason) } : StreamState).tool i =
            (s.tool i).shut := tool_shutTools i
      rw [htool]
      exact ⟨rfl, rfl⟩

theorem json_of_no_call (h : s.Regular) (hcalls : input.calls = [])
    (hingest : s.ingest input = some (next, events)) :
    (∀ i, jsonOf i events = []) ∧ toolStarts events = [] := by
  cases input with
  | chunk chunk =>
    have hemitted : (s.ingestOpening chunk).2 = events :=
      congrArg Prod.snd (Option.some.inj hingest)
    rw [← hemitted]
    unfold ingestOpening startMessage
    split <;> exact ⟨fun _ => rfl, rfl⟩
  | reasoning text =>
    have hstep : s.ingestReasoning text = (next, events) := Option.some.inj hingest
    by_cases htext : text = ""
    · subst htext
      cases hstep
      exact ⟨fun _ => rfl, rfl⟩
    · rw [ingestReasoning_eq htext] at hstep
      cases hstep
      split <;> exact ⟨fun _ => rfl, rfl⟩
  | content text =>
    have hstep : s.ingestContent text = (next, events) := Option.some.inj hingest
    by_cases htext : text = ""
    · subst htext
      cases hstep
      exact ⟨fun _ => rfl, rfl⟩
    · rw [ingestContent_eq htext] at hstep
      cases hstep
      have hclose := s.silent_closeThinking
      constructor
      · intro i
        rw [jsonOf_append, jsonOf_append, hclose.json]
        split <;> rfl
      · rw [toolStarts_append, toolStarts_append, hclose.starts]
        split <;> rfl
  | toolCall finishing call => cases hcalls
  | finishReason reason =>
    rcases ingestFinishReason_cases h hingest with ⟨-, heq⟩ | ⟨-, heq⟩
    · cases heq
      exact ⟨fun _ => rfl, rfl⟩
    · cases heq
      have hsilent := silent_stopEvents s.toolIndexOffset s.toolCalls.entries
      exact ⟨hsilent.json, hsilent.starts⟩

theorem tool_of_no_call (h : s.Regular) (hcalls : input.calls = [])
    (hingest : s.ingest input = some (next, events)) (i : Nat) :
    (next.tool i).started = (s.tool i).started := by
  have hnext := (h.ingest hingest).tool_tidy i
  have hname := (effect_ingest h hingest).named i
  rw [hcalls] at hname
  have hsame : (next.tool i).name.isSome = (s.tool i).name.isSome := by
    rw [Bool.eq_iff_iff, hname]
    simp
  rw [hnext.started, (h.tool_tidy i).started, hsame]

theorem json_advanceEvents (finishing : Bool) (offset : Nat) (old : ToolCallState)
    (call : DeltaToolCall) (i : Nat) :
    jsonOf i (old.advanceEvents finishing offset call) =
      if call.index + offset = i then (old.fresh call).toList else [] := by
  have hdelta : jsonOf i (if old.fresh call = "" then []
      else [.contentBlockDelta (call.index + offset) (.inputJsonDelta (old.fresh call))]) =
        if call.index + offset = i then (old.fresh call).toList else [] := by
    by_cases hempty : old.fresh call = ""
    · rw [if_pos hempty, hempty]
      split <;> rfl
    · rw [if_neg hempty]
      simp [jsonOf, StreamEvent.jsonChars]
  unfold ToolCallState.advanceEvents
  rw [jsonOf_append, jsonOf_append, hdelta]
  have hopening : jsonOf i (if old.started then [] else [.contentBlockStart (call.index + offset)
      (.toolUse (((old.apply call).id).getD ("tool_call_" ++ toString call.index))
        (((old.apply call).name).getD "") (.object []))]) = [] := by
    split <;> rfl
  have hstop : jsonOf i (if finishing && !old.stopped then
      [.contentBlockStop (call.index + offset)] else []) = [] := by
    split <;> rfl
  rw [hopening, hstop, nil_append, append_nil]

theorem starts_advanceEvents (finishing : Bool) (offset : Nat) (old : ToolCallState)
    (call : DeltaToolCall) :
    toolStarts (old.advanceEvents finishing offset call) =
      if old.started then [] else [call.index + offset] := by
  unfold ToolCallState.advanceEvents
  rw [toolStarts_append, toolStarts_append]
  cases old.started <;> by_cases hempty : old.fresh call = "" <;>
    cases finishing <;> cases old.stopped <;> simp [hempty, toolStarts, StreamEvent.toolStart]

end StreamState

end DbClinic.Api
