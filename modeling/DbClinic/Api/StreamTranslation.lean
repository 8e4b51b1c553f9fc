import DbClinic.Api.StreamContents

/-!
The translation of a whole stream. The events of a stream of chunks are a
well-formed message with the contents of the chunks exactly when the stream is
not empty, its inputs come in order and every tool call is given a name.
-/

namespace DbClinic.Api

open Blocks List Function

def Framed (events : List StreamEvent) : Prop :=
  ∃ message body stopReason stopSequence usage,
    events = .messageStart message :: body ++
      [.messageDelta stopReason stopSequence usage, .messageStop] ∧
    ∀ e ∈ body, e.block.isSome = true

def choicesOf (chunks : List ChatCompletionChunk) : List ChunkChoice :=
  chunks.flatMap fun chunk => chunk.choices

def contentOf (chunks : List ChatCompletionChunk) : List Char :=
  (choicesOf chunks).flatMap fun choice => (choice.delta.content.getD "").toList

def reasoningOf (chunks : List ChatCompletionChunk) : List Char :=
  (choicesOf chunks).flatMap fun choice => (choice.delta.reasoningContent.getD "").toList

def fragmentsOf (chunks : List ChatCompletionChunk) : List DeltaToolCall :=
  (choicesOf chunks).flatMap fun choice => choice.delta.toolCalls

/-- The events are a well-formed message that says what the chunks say: every
block has one start and one stop, with its deltas between them; the text and
the thinking are the ones that came; and every tool call of which a fragment
came has a block of its own, with its arguments. -/
structure Translates (chunks : List ChatCompletionChunk) (events : List StreamEvent) : Prop where
  framed : Framed events
  complete : ∀ i, Complete i ((blocksOf events).filter fun e => e.index = i)
  text : textOf events = contentOf chunks
  thinking : thinkingOf events = reasoningOf chunks
  tools : ∃ block : Nat → Nat,
    (∀ call ∈ fragmentsOf chunks, ∀ other ∈ fragmentsOf chunks,
      block call.index = block other.index → call.index = other.index) ∧
    ∀ call ∈ fragmentsOf chunks, block call.index ∈ toolStarts events ∧
      jsonOf (block call.index) events = argumentsOf call.index (fragmentsOf chunks)

variable {α : Type}

theorem inputsOf_flatMap (f : Input → List α) (chunks : List ChatCompletionChunk)
    (hchunk : ∀ chunk, f (.chunk chunk) = []) :
    (inputsOf chunks).flatMap f =
      (choicesOf chunks).flatMap fun choice => choice.inputs.flatMap f := by
  unfold inputsOf choicesOf
  rw [flatMap_assoc, flatMap_assoc]
  congr 1
  funext chunk
  rw [ChatCompletionChunk.inputs, flatMap_cons, hchunk, nil_append, flatMap_assoc]

theorem inputs_flatMap (f : Input → List α) (choice : ChunkChoice) :
    choice.inputs.flatMap f =
      f (.reasoning (choice.delta.reasoningContent.getD "")) ++
        f (.content (choice.delta.content.getD "")) ++
        (choice.delta.toolCalls.flatMap fun call =>
          f (.toolCall (choice.finishReason = some "tool_calls") call)) ++
        choice.finishReason.toList.flatMap fun reason => f (.finishReason reason) := by
  unfold ChunkChoice.inputs
  simp [flatMap_map, append_assoc]

theorem inputsOf_content (chunks : List ChatCompletionChunk) :
    (inputsOf chunks).flatMap Input.contentChars = contentOf chunks := by
  rw [inputsOf_flatMap _ _ fun _ => rfl]
  unfold contentOf
  congr 1
  funext choice
  rw [inputs_flatMap]
  simp [Input.contentChars]

theorem inputsOf_reasoning (chunks : List ChatCompletionChunk) :
    (inputsOf chunks).flatMap Input.reasoningChars = reasoningOf chunks := by
  rw [inputsOf_flatMap _ _ fun _ => rfl]
  unfold reasoningOf
  congr 1
  funext choice
  rw [inputs_flatMap]
  simp [Input.reasoningChars]

theorem inputsOf_calls (chunks : List ChatCompletionChunk) :
    (inputsOf chunks).flatMap Input.calls = fragmentsOf chunks := by
  rw [inputsOf_flatMap _ _ fun _ => rfl]
  unfold fragmentsOf
  congr 1
  funext choice
  rw [inputs_flatMap]
  simp [Input.calls]

namespace StreamState

variable {s next : StreamState} {block : Nat → Nat} {blocks : Nat → BlockStatus BlockKind}
  {inputs : List Input} {events evs : List StreamEvent}

/-- How far a translation has come after some inputs, all in order. -/
structure Progress (s : StreamState) (block : Nat → Nat) (blocks : Nat → BlockStatus BlockKind)
    (inputs : List Input) (events : List StreamEvent) : Prop where
  regular : s.Regular
  placed : s.layout.Placed block blocks
  replayed : replay (fun _ => .absent) (blocksOf events) = some blocks
  text : textOf events = inputs.flatMap Input.contentChars
  thinking : thinkingOf events = inputs.flatMap Input.reasoningChars
  arguments : ∀ i, (s.tool i).arguments.toList = argumentsOf i (inputs.flatMap Input.calls)
  named : ∀ i, (s.tool i).name.isSome = true ↔
    ∃ call ∈ inputs.flatMap Input.calls, call.index = i ∧ call.function.name.isSome = true
  json : ∀ i, (s.tool i).started = true → jsonOf (block i) events = (s.tool i).arguments.toList
  starts : ∀ k, k ∈ toolStarts events ↔ ∃ i, (s.tool i).started = true ∧ block i = k

theorem new_progress (model : String) :
    (new model).Progress (fun _ => 0) (fun _ => .absent) [] [] where
  regular := new_regular model
  placed := new_placed model
  replayed := rfl
  text := rfl
  thinking := rfl
  arguments := fun _ => rfl
  named := fun _ => ⟨nofun, fun ⟨_, hmem, _⟩ => absurd hmem not_mem_nil⟩
  json := fun _ h => nomatch h
  starts := fun _ => ⟨fun h => absurd h not_mem_nil, fun ⟨_, h, _⟩ => nomatch h⟩

variable {finishing : Bool} {call : DeltaToolCall} {chunks : List ChatCompletionChunk}
variable {input : Input}

theorem nextBlock_of_no_call (hcalls : input.calls = []) :
    s.nextBlock block input = block := by
  cases input with
  | toolCall finishing call => cases hcalls
  | chunk chunk => rfl
  | reasoning text => rfl
  | content text => rfl
  | finishReason reason => rfl

theorem json_toolCall (h : s.Regular)
    (hingest : ingestToolCall finishing s call = some (next, evs)) :
    (∀ k, jsonOf k evs = if ((s.tool call.index).apply call).name.isSome = true ∧
        call.index + s.toolIndexOffset = k then ((s.tool call.index).fresh call).toList else []) ∧
      (toolStarts evs = if s.opens call then [call.index + s.toolIndexOffset] else []) ∧
        ∀ i, next.tool i = if i = call.index then s.toolAfter finishing call else s.tool i := by
  rw [ingestToolCall_eq h] at hingest
  split at hingest
  · cases hingest
    have hclose := s.silent_closeThinking
    refine ⟨fun k => ?_, ?_, fun i => ?_⟩
    · rw [jsonOf_append, hclose.json, nil_append]
      unfold toolEvents
      by_cases hname : ((s.tool call.index).apply call).name.isSome = true
      · rw [if_pos hname, json_advanceEvents]
        simp [hname]
      · rw [if_neg hname, if_neg fun hboth => hname hboth.1]
        rfl
    · rw [toolStarts_append, hclose.starts, nil_append]
      unfold toolEvents opens
      by_cases hname : ((s.tool call.index).apply call).name.isSome = true
      · rw [if_pos hname, starts_advanceEvents, hname, Bool.and_true]
        cases (s.tool call.index).started <;> rfl
      · rw [if_neg hname, Bool.eq_false_iff.mpr hname, Bool.and_false]
        rfl
    · rw [tool_setTool, update_apply]
      rfl
  · cases hingest

theorem fresh_block (h : s.Progress block blocks inputs events)
    (hin : s.InOrder block (.toolCall finishing call))
    (hname : ((s.tool call.index).apply call).name.isSome = true) :
    (s.tool call.index).fresh call = "" ∨
      s.nextBlock block (.toolCall finishing call) call.index =
        call.index + s.toolIndexOffset := by
  cases hopens : s.opens call with
  | true =>
    right
    rw [show s.nextBlock block (.toolCall finishing call) =
      Function.update block call.index (call.index + s.toolIndexOffset) from if_pos hopens]
    exact update_self ..
  | false =>
    have hstarted : (s.tool call.index).started = true := by
      unfold opens at hopens
      rw [hname, Bool.and_true] at hopens
      simpa using hopens
    cases hstop : (s.tool call.index).stopped with
    | true =>
      have hfresh : (s.tool call.index).fresh call = call.function.arguments.getD "" :=
        if_pos hstarted
      exact .inl (hfresh.trans (hin.2.1 hstop))
    | false =>
      right
      rw [show s.nextBlock block (.toolCall finishing call) = block from
        if_neg (by rw [hopens]; exact Bool.false_ne_true)]
      exact (h.placed.current call.index hstarted hstop).1

theorem contents_unnamed (h : s.Progress block blocks inputs events)
    (hingest : ingestToolCall finishing s call = some (next, evs))
    (hname : ((s.tool call.index).apply call).name.isSome = false) :
    (∀ i, (next.tool i).started = true →
        jsonOf (s.nextBlock block (.toolCall finishing call) i) (events ++ evs) =
          (next.tool i).arguments.toList) ∧
      ∀ k, k ∈ toolStarts (events ++ evs) ↔ ∃ i, (next.tool i).started = true ∧
        s.nextBlock block (.toolCall finishing call) i = k := by
  obtain ⟨hjson, hstarts, htools⟩ := json_toolCall h.regular hingest
  have hopens : s.opens call = false := by
    unfold opens
    rw [hname, Bool.and_false]
  have hblock : s.nextBlock block (.toolCall finishing call) = block :=
    if_neg (by rw [hopens]; exact Bool.false_ne_true)
  have hnone : ((s.tool call.index).apply call).name = none := by
    simpa using hname
  have hstep : s.ingest (.toolCall finishing call) = some (next, evs) := hingest
  have hold : (s.tool call.index).started = false := by
    have hnext := ((h.regular.ingest hstep).tool_tidy call.index).started
    rw [htools, if_pos rfl, toolAfter, if_neg (by rw [hname]; exact Bool.false_ne_true),
      hname] at hnext
    exact hnext
  have hsame (i : Nat) (hi : (next.tool i).started = true) : next.tool i = s.tool i := by
    rw [htools]
    refine if_neg fun heq => ?_
    rw [htools, if_pos heq, toolAfter, if_neg (by rw [hname]; exact Bool.false_ne_true)] at hi
    rw [show ((s.tool call.index).apply call).started = (s.tool call.index).started from rfl,
      hold] at hi
    cases hi
  have hback (i : Nat) (hi : (s.tool i).started = true) : next.tool i = s.tool i := by
    rw [htools]
    refine if_neg fun heq => ?_
    rw [heq, hold] at hi
    cases hi
  rw [hblock]
  constructor
  · intro i hi
    have hsilent : jsonOf (block i) evs = [] := by
      rw [hjson, hname]
      exact if_neg fun hboth => Bool.false_ne_true hboth.1
    have hs := hsame i hi
    rw [hs] at hi ⊢
    rw [jsonOf_append, hsilent, append_nil, h.json i hi]
  · intro k
    rw [hopens, if_neg Bool.false_ne_true] at hstarts
    rw [toolStarts_append, hstarts, append_nil, h.starts k]
    constructor
    · rintro ⟨i, hi, hk⟩
      exact ⟨i, (hback i hi).symm ▸ hi, hk⟩
    · rintro ⟨i, hi, hk⟩
      exact ⟨i, hsame i hi ▸ hi, hk⟩

variable {after : Nat → BlockStatus BlockKind} {model : String}

theorem contents_named (h : s.Progress block blocks inputs events)
    (hin : s.InOrder block (.toolCall finishing call))
    (hingest : ingestToolCall finishing s call = some (next, evs))
    (hplaced : next.layout.Placed (s.nextBlock block (.toolCall finishing call)) after)
    (hname : ((s.tool call.index).apply call).name.isSome = true) :
    (∀ i, (next.tool i).started = true →
        jsonOf (s.nextBlock block (.toolCall finishing call) i) (events ++ evs) =
          (next.tool i).arguments.toList) ∧
      ∀ k, k ∈ toolStarts (events ++ evs) ↔ ∃ i, (next.tool i).started = true ∧
        s.nextBlock block (.toolCall finishing call) i = k := by
  obtain ⟨hjson, hstarts, htools⟩ := json_toolCall h.regular hingest
  have hself : next.tool call.index = (s.tool call.index).advance finishing call := by
    rw [htools, if_pos rfl, toolAfter, if_pos hname]
  have hother {i : Nat} (hi : i ≠ call.index) : next.tool i = s.tool i := by
    rw [htools, if_neg hi]
  have hstarted : (next.tool call.index).started = true := by
    rw [hself]
    rfl
  have harguments : (next.tool call.index).arguments.toList =
      (s.tool call.index).arguments.toList ++ (call.function.arguments.getD "").toList := by
    rw [hself, ← String.toList_append]
    rfl
  have hblockOther {i : Nat} (hi : i ≠ call.index) :
      s.nextBlock block (.toolCall finishing call) i = block i := by
    change (if s.opens call then _ else _ : Nat → Nat) i = block i
    split
    · exact update_of_ne hi ..
    · rfl
  have hfresh := fresh_block h hin hname
  have hsilent {i : Nat} (hi : i ≠ call.index) (hs : (next.tool i).started = true) :
      jsonOf (s.nextBlock block (.toolCall finishing call) i) evs = [] := by
    rw [hjson]
    split
    · rename_i hboth
      rcases hfresh with hempty | hblock
      · rw [hempty]
        rfl
      · exact absurd (hplaced.distinct i call.index hs hstarted (hboth.2.symm.trans hblock.symm)) hi
    · rfl
  cases hopens : s.opens call with
  | true =>
    have hnot : (s.tool call.index).started = false := by
      unfold opens at hopens
      rw [hname, Bool.and_true] at hopens
      simpa using hopens
    have hblock : s.nextBlock block (.toolCall finishing call) call.index =
        call.index + s.toolIndexOffset := by
      change (if s.opens call then _ else _ : Nat → Nat) call.index = _
      rw [if_pos hopens]
      exact update_self ..
    have hne {i : Nat} (hi : (s.tool i).started = true) : i ≠ call.index := by
      rintro rfl
      rw [hnot] at hi
      cases hi
    constructor
    · intro i hi
      by_cases heq : i = call.index
      · subst heq
        have habsent : jsonOf (call.index + s.toolIndexOffset) events = [] := by
          refine jsonOf_of_absent (replay_absent h.replayed (h.placed.free_tool ?_))
          have hfree := hin.2.2 hopens
          rw [forall_started_iff
            (P := fun i _ => block i ≠ call.index + s.toolIndexOffset)] at hfree
          exact hfree
        rw [jsonOf_append, hblock, habsent, nil_append, hjson, if_pos ⟨hname, rfl⟩,
          hself]
        change ((s.tool call.index).fresh call).toList = _
        rw [ToolCallState.fresh, if_neg (by rw [hnot]; exact Bool.false_ne_true)]
        rfl
      · have hold := hother heq
        rw [jsonOf_append, hsilent heq hi, append_nil, hblockOther heq]
        rw [hold] at hi ⊢
        exact h.json i hi
    · intro k
      rw [hopens, if_pos rfl] at hstarts
      rw [toolStarts_append, hstarts, mem_append, h.starts k, mem_singleton]
      constructor
      · rintro (⟨i, hi, hk⟩ | hk)
        · refine ⟨i, ?_, ?_⟩
          · rw [hother (hne hi)]
            exact hi
          · rw [hblockOther (hne hi)]
            exact hk
        · exact ⟨call.index, hstarted, hblock.trans hk.symm⟩
      · rintro ⟨i, hi, hk⟩
        by_cases heq : i = call.index
        · subst heq
          exact .inr (hk.symm.trans hblock)
        · rw [hother heq] at hi
          rw [hblockOther heq] at hk
          exact .inl ⟨i, hi, hk⟩
  | false =>
    have hold : (s.tool call.index).started = true := by
      unfold opens at hopens
      rw [hname, Bool.and_true] at hopens
      simpa using hopens
    have hblock : s.nextBlock block (.toolCall finishing call) = block :=
      if_neg (by rw [hopens]; exact Bool.false_ne_true)
    have hsame (i : Nat) : (next.tool i).started = (s.tool i).started := by
      by_cases heq : i = call.index
      · subst heq
        rw [hstarted, hold]
      · rw [hother heq]
    constructor
    · intro i hi
      by_cases heq : i = call.index
      · subst heq
        have hmore : jsonOf (block call.index) evs =
            (call.function.arguments.getD "").toList := by
          have hfragment : (s.tool call.index).fresh call =
              call.function.arguments.getD "" := if_pos hold
          rw [hjson, hfragment]
          rcases hfresh with hempty | hcur
          · rw [hfragment] at hempty
            rw [hempty]
            split <;> rfl
          · rw [hblock] at hcur
            exact if_pos ⟨hname, hcur.symm⟩
        rw [hblock, jsonOf_append, hmore, h.json call.index hold, harguments]
      · have hkeep := hother heq
        rw [jsonOf_append, hsilent heq hi, append_nil, hblockOther heq]
        rw [hkeep] at hi ⊢
        exact h.json i hi
    · intro k
      rw [hopens, if_neg Bool.false_ne_true] at hstarts
      rw [toolStarts_append, hstarts, append_nil, h.starts k, hblock]
      simp only [hsame]

theorem Progress.ingest (h : s.Progress block blocks inputs events) (hin : s.InOrder block input) :
    ∃ next evs after, s.ingest input = some (next, evs) ∧
      next.Progress (s.nextBlock block input) after (inputs ++ [input]) (events ++ evs) := by
  obtain ⟨next, evs, after, hingest, hreplay, hplaced⟩ := replay_ingest h.regular h.placed hin
  have heffect := effect_ingest h.regular hingest
  have hcontents : (∀ i, (next.tool i).started = true →
        jsonOf (s.nextBlock block input i) (events ++ evs) = (next.tool i).arguments.toList) ∧
      ∀ k, k ∈ toolStarts (events ++ evs) ↔
        ∃ i, (next.tool i).started = true ∧ s.nextBlock block input i = k := by
    cases hcalls : input.calls with
    | nil =>
      obtain ⟨hjson, hstarts⟩ := json_of_no_call h.regular hcalls hingest
      have hsame := tool_of_no_call h.regular hcalls hingest
      rw [nextBlock_of_no_call hcalls]
      constructor
      · intro i hi
        have harguments := heffect.arguments i
        rw [hcalls] at harguments
        rw [hsame i] at hi
        rw [jsonOf_append, hjson, append_nil, h.json i hi, harguments]
        exact (append_nil _).symm
      · intro k
        rw [toolStarts_append, hstarts, append_nil, h.starts k]
        simp only [hsame]
    | cons call rest =>
      cases input with
      | toolCall finishing call =>
        cases hname : ((s.tool call.index).apply call).name.isSome with
        | true => exact contents_named h hin hingest hplaced hname
        | false => exact contents_unnamed h hingest hname
      | chunk chunk => cases hcalls
      | reasoning text => cases hcalls
      | content text => cases hcalls
      | finishReason reason => cases hcalls
  refine ⟨next, evs, after, hingest, h.regular.ingest hingest, hplaced, ?_, ?_, ?_, ?_, ?_,
    hcontents.1, hcontents.2⟩
  · rw [blocksOf_append, replay_append, h.replayed]
    exact hreplay
  · rw [textOf_append, h.text, heffect.text, flatMap_append, flatMap_singleton]
  · rw [thinkingOf_append, h.thinking, heffect.thinking, flatMap_append,
      flatMap_singleton]
  · intro i
    rw [heffect.arguments, h.arguments, flatMap_append, flatMap_singleton,
      argumentsOf_append]
  · intro i
    rw [heffect.named, h.named, flatMap_append, flatMap_singleton]
    simp only [mem_append, or_and_right, exists_or]

theorem Progress.ingestAll (h : s.Progress block blocks inputs events) {rest : List Input}
    (horderly : s.Orderly block rest) :
    ∃ next evs block' after, s.ingestAll rest = some (next, evs) ∧
      next.Progress block' after (inputs ++ rest) (events ++ evs) := by
  induction rest generalizing s block blocks inputs events with
  | nil =>
    refine ⟨s, [], block, blocks, rfl, ?_⟩
    rw [append_nil, append_nil]
    exact h
  | cons input rest ih =>
    obtain ⟨hin, hrest⟩ := horderly
    obtain ⟨middle, first, after, hingest, hmiddle⟩ := h.ingest hin
    obtain ⟨next, others, block', after', hothers, hnext⟩ :=
      ih hmiddle (hrest middle first hingest)
    refine ⟨next, first ++ others, block', after', ?_, ?_⟩
    · rw [StreamState.ingestAll, hingest, Option.bind_eq_bind, Option.bind_some, hothers]
      rfl
    · rw [append_assoc, append_assoc] at hnext
      exact hnext

theorem blocks_toolEvents (finishing : Bool) (s : StreamState) (call : DeltaToolCall) :
    ∀ e ∈ s.toolEvents finishing call, e.block.isSome = true := by
  intro e he
  unfold toolEvents at he
  split at he
  · unfold ToolCallState.advanceEvents at he
    rw [mem_append, mem_append] at he
    rcases he with (he | he) | he <;> split at he <;> simp at he <;> rw [he] <;> rfl
  · cases he

theorem blocks_closeThinking (s : StreamState) :
    ∀ e ∈ s.closeThinking.2, e.block.isSome = true := by
  intro e he
  unfold closeThinking at he
  split at he
  · rw [mem_singleton.mp he]
    rfl
  · cases he

theorem blocks_stopEvents (offset : Nat) (entries : List (Nat × ToolCallState)) :
    ∀ e ∈ stopEvents offset entries, e.block.isSome = true := by
  intro e he
  obtain ⟨tool, -, rfl⟩ := mem_map.mp he
  rfl

theorem blocks_ingest (h : s.Regular) (hmsg : s.messageStarted = true)
    (hingest : s.ingest input = some (next, evs)) :
    next.messageStarted = true ∧ ∀ e ∈ evs, e.block.isSome = true := by
  cases input with
  | chunk chunk =>
    have hstep : s.ingestOpening chunk = (next, evs) := Option.some.inj hingest
    have hnext : (s.ingestOpening chunk).1 = next := congrArg Prod.fst hstep
    have hemitted : (s.ingestOpening chunk).2 = evs := congrArg Prod.snd hstep
    rw [← hnext, ← hemitted, ingestOpening_fst]
    refine ⟨rfl, fun e he => ?_⟩
    unfold ingestOpening startMessage at he
    rw [if_pos hmsg] at he
    cases he
  | reasoning text =>
    have hstep : s.ingestReasoning text = (next, evs) := Option.some.inj hingest
    by_cases htext : text = ""
    · subst htext
      cases hstep
      exact ⟨hmsg, fun e he => absurd he not_mem_nil⟩
    · rw [ingestReasoning_eq htext] at hstep
      cases hstep
      refine ⟨hmsg, fun e he => ?_⟩
      split at he <;> simp at he
      · rw [he]
        rfl
      · rcases he with rfl | rfl <;> rfl
  | content text =>
    have hstep : s.ingestContent text = (next, evs) := Option.some.inj hingest
    by_cases htext : text = ""
    · subst htext
      cases hstep
      exact ⟨hmsg, fun e he => absurd he not_mem_nil⟩
    · rw [ingestContent_eq htext] at hstep
      cases hstep
      refine ⟨hmsg, fun e he => ?_⟩
      rw [mem_append, mem_append] at he
      rcases he with (he | he) | he
      · exact s.blocks_closeThinking e he
      · split at he
        · cases he
        · rw [mem_singleton.mp he]
          rfl
      · rw [mem_singleton.mp he]
        rfl
  | toolCall finishing call =>
    rw [StreamState.ingest, ingestToolCall_eq h] at hingest
    split at hingest
    · cases hingest
      refine ⟨hmsg, fun e he => ?_⟩
      rcases mem_append.mp he with he | he
      · exact s.blocks_closeThinking e he
      · exact blocks_toolEvents finishing s call e he
    · cases hingest
  | finishReason reason =>
    rcases ingestFinishReason_cases h hingest with ⟨-, heq⟩ | ⟨-, heq⟩
    · cases heq
      exact ⟨hmsg, fun e he => absurd he not_mem_nil⟩
    · cases heq
      exact ⟨hmsg, blocks_stopEvents _ _⟩

theorem blocks_ingestAll (h : s.Regular) (hmsg : s.messageStarted = true)
    (hingest : s.ingestAll inputs = some (next, evs)) :
    next.Regular ∧ next.messageStarted = true ∧ ∀ e ∈ evs, e.block.isSome = true := by
  induction inputs generalizing s evs with
  | nil =>
    cases hingest
    exact ⟨h, hmsg, fun e he => absurd he not_mem_nil⟩
  | cons input rest ih =>
    obtain ⟨middle, first, others, hfirst, hrest, rfl⟩ := ingestAll_cons hingest
    obtain ⟨hmiddle, hevents⟩ := blocks_ingest h hmsg hfirst
    obtain ⟨hnext, hlast, hothers⟩ := ih (h.ingest hfirst) hmiddle hrest
    refine ⟨hnext, hlast, fun e he => ?_⟩
    rcases mem_append.mp he with he | he
    · exact hevents e he
    · exact hothers e he

theorem framed_run {chunk : ChatCompletionChunk}
    (hingest : (new model).ingestAll (inputsOf (chunk :: chunks)) = some (next, evs)) :
    Framed (evs ++ next.endEvents) := by
  have hinputs : inputsOf (chunk :: chunks) =
      .chunk chunk :: (chunk.choices.flatMap ChunkChoice.inputs ++ inputsOf chunks) := rfl
  rw [hinputs] at hingest
  obtain ⟨middle, first, others, hfirst, hrest, rfl⟩ := ingestAll_cons hingest
  have hregular := (new_regular model).ingest hfirst
  cases hfirst
  obtain ⟨-, hmsg, hevents⟩ := blocks_ingestAll hregular rfl hrest
  have hend : next.endMessage = [.messageDelta (some (next.stopReason.getD "end_turn")) none
      (next.usage.getD Usage.zero), .messageStop] := if_pos hmsg
  unfold Framed endEvents
  rw [hend, ← append_assoc]
  refine ⟨_, others ++ (next.closeThinking.2 ++
    (if next.textStarted then [.contentBlockStop next.textBlockIndex] else []) ++
      stopEvents next.toolIndexOffset next.toolCalls.entries), _, _, _, rfl, fun e he => ?_⟩
  rw [mem_append, mem_append, mem_append] at he
  rcases he with he | (he | he) | he
  · exact hevents e he
  · exact next.blocks_closeThinking e he
  · split at he
    · rw [mem_singleton.mp he]
      rfl
    · cases he
  · exact blocks_stopEvents _ _ e he

theorem regular_ingestAll (h : s.Regular) (hingest : s.ingestAll inputs = some (next, evs)) :
    next.Regular := by
  induction inputs generalizing s evs with
  | nil =>
    cases hingest
    exact h
  | cons input rest ih =>
    obtain ⟨middle, first, others, hfirst, hrest, -⟩ := ingestAll_cons hingest
    exact ih (h.ingest hfirst) hrest

theorem events_eq_some (h : StreamState.events model chunks = some events) :
    ∃ next evs, (new model).ingestAll (inputsOf chunks) = some (next, evs) ∧
      events = evs ++ next.endEvents := by
  simp only [StreamState.events, ingestChunks_eq, Option.bind_eq_bind,
    Option.bind_eq_some_iff] at h
  obtain ⟨⟨next, evs⟩, hingest, ⟨last, ends⟩, hfinish, heq⟩ := h
  have hends := (regular_ingestAll (new_regular model) hingest).finish_events hfinish
  cases heq
  exact ⟨next, evs, hingest, congrArg _ hends⟩

theorem events_of_orderly (model : String)
    (horderly : (new model).Orderly (fun _ => 0) (inputsOf chunks)) :
    ∃ next evs block after, (new model).ingestAll (inputsOf chunks) = some (next, evs) ∧
      StreamState.events model chunks = some (evs ++ next.endEvents) ∧
        next.Progress block after (inputsOf chunks) evs := by
  obtain ⟨next, evs, block, after, hingest, hprogress⟩ :=
    (new_progress model).ingestAll horderly
  obtain ⟨last, hfinish⟩ := hprogress.regular.finish_of_fit (Placed.fit hprogress.placed)
  refine ⟨next, evs, block, after, hingest, ?_, hprogress⟩
  rw [StreamState.events, ingestChunks_eq, hingest, Option.bind_eq_bind, Option.bind_some, hfinish]
  rfl

theorem exists_name {block : Nat → Nat} (h : next.Progress block after (inputsOf chunks) evs)
    {block' : Nat → Nat} (hdistinct : ∀ call ∈ fragmentsOf chunks, ∀ other ∈ fragmentsOf chunks,
      block' call.index = block' other.index → call.index = other.index)
    (hstart : ∀ call ∈ fragmentsOf chunks, block' call.index ∈ toolStarts evs) :
    ∀ call ∈ fragmentsOf chunks, ∃ named ∈ fragmentsOf chunks,
      named.index = call.index ∧ named.function.name.isSome = true := by
  by_contra hnone
  push Not at hnone
  obtain ⟨call, hcall, hunnamed⟩ := hnone
  let arrived : Finset Nat := ((fragmentsOf chunks).map DeltaToolCall.index).toFinset
  have harrived {i : Nat} : i ∈ arrived ↔ ∃ c ∈ fragmentsOf chunks, c.index = i := by
    simp [arrived]
  have hmem : call.index ∈ arrived := harrived.mpr ⟨call, hcall, rfl⟩
  -- every block that starts belongs to a tool call with a name, so not to this one
  have hmaps : ∀ i ∈ arrived, block' i ∈ (arrived.erase call.index).image block := by
    intro i hi
    obtain ⟨c, hc, rfl⟩ := harrived.mp hi
    obtain ⟨j, hj, hblock⟩ := (h.starts _).mp (hstart c hc)
    have hname := (h.regular.tool_tidy j).started.symm.trans hj
    obtain ⟨d, hd, rfl, hdname⟩ := (h.named j).mp hname
    rw [inputsOf_calls] at hd
    have hne : d.index ≠ call.index := fun heq => hunnamed d hd heq hdname
    exact Finset.mem_image.mpr
      ⟨d.index, Finset.mem_erase.mpr ⟨hne, harrived.mpr ⟨d, hd, rfl⟩⟩, hblock⟩
  have hinjective : Set.InjOn block' arrived := by
    intro i hi j hj heq
    obtain ⟨c, hc, rfl⟩ := harrived.mp hi
    obtain ⟨d, hd, rfl⟩ := harrived.mp hj
    exact hdistinct c hc d hd heq
  have hcard := Finset.card_le_card_of_injOn block' hmaps hinjective
  have himage := (Finset.card_image_le (s := arrived.erase call.index) (f := block))
  have hless := Finset.card_erase_lt_of_mem hmem
  omega

end StreamState

/-- The events of a stream are a well-formed message with its contents exactly
when the stream is not empty, its inputs come in order, and every tool call is
given a name by one of its fragments. -/
theorem translates_iff (model : String) (chunks : List ChatCompletionChunk) :
    (∃ events, StreamState.events model chunks = some events ∧ Translates chunks events) ↔
      chunks ≠ [] ∧ (StreamState.new model).Orderly (fun _ => 0) (inputsOf chunks) ∧
        ∀ call ∈ fragmentsOf chunks, ∃ named ∈ fragmentsOf chunks,
          named.index = call.index ∧ named.function.name.isSome = true := by
  constructor
  · rintro ⟨events, hevents, htranslates⟩
    have hnonempty : chunks ≠ [] := by
      rintro rfl
      have hempty : StreamState.events model [] = some [] := rfl
      rw [hempty] at hevents
      cases hevents
      obtain ⟨message, body, stopReason, stopSequence, usage, heq, -⟩ := htranslates.framed
      cases heq
    have horderly : (StreamState.new model).Orderly (fun _ => 0) (inputsOf chunks) := by
      by_contra hnot
      obtain ⟨next, evs, hingest, rfl⟩ := StreamState.events_eq_some hevents
      have hfails := StreamState.disorder_run (StreamState.new_regular model)
        (StreamState.new_placed model) hnot hingest
      obtain ⟨after, hreplay, -⟩ := (replay_closed_iff _).mpr htranslates.complete
      rw [hfails] at hreplay
      cases hreplay
    refine ⟨hnonempty, horderly, ?_⟩
    obtain ⟨next, evs, block, after, -, hall, hprogress⟩ :=
      StreamState.events_of_orderly model horderly
    rw [hall] at hevents
    cases hevents
    obtain ⟨block', hdistinct, htools⟩ := htranslates.tools
    refine StreamState.exists_name hprogress hdistinct fun call hcall => ?_
    have hstart := (htools call hcall).1
    rwa [toolStarts_append, next.silent_endEvents.starts, append_nil] at hstart
  · rintro ⟨hnonempty, horderly, hnamed⟩
    obtain ⟨next, evs, block, after, hingest, hall, hprogress⟩ :=
      StreamState.events_of_orderly model horderly
    have hsilent := next.silent_endEvents
    have hstarted {call : DeltaToolCall} (hcall : call ∈ fragmentsOf chunks) :
        (next.tool call.index).started = true := by
      rw [(hprogress.regular.tool_tidy call.index).started, hprogress.named, inputsOf_calls]
      exact hnamed call hcall
    refine ⟨_, hall, ?_, ?_, ?_, ?_, block, ?_, ?_⟩
    · cases chunks with
      | nil => exact absurd rfl hnonempty
      | cons chunk rest => exact StreamState.framed_run hingest
    · obtain ⟨closed, hclosed, hend⟩ :=
        StreamState.replay_endEvents hprogress.regular hprogress.placed
      refine (replay_closed_iff _).mp ⟨closed, ?_, hend⟩
      rw [blocksOf_append, replay_append, hprogress.replayed]
      exact hclosed
    · rw [textOf_append, hsilent.text, append_nil, hprogress.text, inputsOf_content]
    · rw [thinkingOf_append, hsilent.thinking, append_nil, hprogress.thinking,
        inputsOf_reasoning]
    · intro call hcall other hother heq
      exact hprogress.placed.distinct _ _ (hstarted hcall) (hstarted hother) heq
    · intro call hcall
      constructor
      · rw [toolStarts_append, hsilent.starts, append_nil, hprogress.starts]
        exact ⟨call.index, hstarted hcall, rfl⟩
      · rw [jsonOf_append, hsilent.json, append_nil,
          hprogress.json call.index (hstarted hcall), hprogress.arguments, inputsOf_calls]

def lateReasoning : List ChatCompletionChunk :=
  [⟨"c1", none, [⟨⟨none, some "first", []⟩, none⟩], none⟩,
    ⟨"c1", none, [⟨⟨some "answer", none, []⟩, none⟩], none⟩,
    ⟨"c1", none, [⟨⟨none, some "second", []⟩, some "stop"⟩], none⟩]

theorem late_reasoning_malformed :
    ¬ ∀ (model : String) (chunks : List ChatCompletionChunk), ∃ events,
      StreamState.events model chunks = some events ∧ Translates chunks events := by
  intro h
  obtain ⟨events, hevents, htranslates⟩ := h "model" lateReasoning
  have hblocks : (StreamState.events "model" lateReasoning).map (fun events =>
      (blocksOf events).filter fun e => e.index = 0) =
        some [.start 0 .thinking, .delta 0 .thinking, .stop 0, .delta 0 .thinking] := rfl
  rw [hevents, Option.map_some, Option.some.injEq] at hblocks
  have hcomplete := htranslates.complete 0
  rw [hblocks, complete_iff_replayOne (by decide)] at hcomplete
  obtain ⟨status, hreplay, -⟩ := hcomplete
  cases hreplay

end DbClinic.Api
