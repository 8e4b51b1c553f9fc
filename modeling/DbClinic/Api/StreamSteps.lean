import DbClinic.Api.StreamBlocks

/-!
What one input does to the state and which events it emits, written out. The
flags of a tool call follow from its data in every state of a translation:
`Tidy` says how, and the operations on tool calls are simple for such states.
-/

namespace DbClinic.Api

open List

namespace ToolCallState

/-- The flags of a tool call agree with its data. -/
structure Tidy (t : ToolCallState) : Prop where
  started : t.started = t.name.isSome
  emitted : t.emittedLen = if t.started then t.arguments.length else 0
  stopped : t.stopped = true → t.started = true

def isOpen (t : ToolCallState) : Bool := t.started && !t.stopped

def shut (t : ToolCallState) : ToolCallState :=
  { t with stopped := t.stopped || t.started }

theorem default_tidy : default.Tidy := ⟨rfl, rfl, nofun⟩

theorem Tidy.shut {t : ToolCallState} (h : t.Tidy) : t.shut.Tidy where
  started := h.started
  emitted := h.emitted
  stopped := by
    intro hstopped
    cases hold : t.stopped with
    | true => exact h.stopped hold
    | false => simpa [ToolCallState.shut, hold] using hstopped

theorem deltaEvent_eq (t : ToolCallState) (offset : Nat) {done rest : String}
    (harguments : t.arguments = done ++ rest) (hlen : t.emittedLen = done.length)
    (hfit : t.openaiIndex + offset < 2 ^ 32) :
    t.deltaEvent offset = some ({ t with emittedLen := t.arguments.length },
      if rest = "" then none
      else some (.contentBlockDelta (t.openaiIndex + offset) (.inputJsonDelta rest))) := by
  have hlength : t.arguments.length = done.length + rest.length := by
    rw [harguments, String.length_append]
  unfold deltaEvent
  by_cases hempty : rest = ""
  · subst hempty
    have hdone : t.emittedLen = t.arguments.length := by
      rw [hlen, hlength]
      rfl
    rw [if_pos (by omega), if_pos rfl, ← hdone]
  · have hpos : rest.length ≠ 0 := fun h => hempty (String.length_eq_zero_iff.mp h)
    have hdrop : String.ofList (t.arguments.toList.drop t.emittedLen) = rest := by
      rw [harguments, hlen, String.toList_append, ← String.length_toList, drop_left,
        String.ofList_toList]
    have hindex : t.blockIndex offset = some (t.openaiIndex + offset) := if_pos hfit
    rw [if_neg (by omega), if_neg hempty, hdrop, hindex]
    rfl

/-- What a fragment adds to the arguments that were emitted. -/
def fresh (old : ToolCallState) (call : DeltaToolCall) : String :=
  if old.started then call.function.arguments.getD "" else (old.apply call).arguments

theorem Tidy.arguments_eq {old : ToolCallState} (h : old.Tidy) (call : DeltaToolCall) :
    ∃ done, (old.apply call).arguments = done ++ old.fresh call ∧
      old.emittedLen = done.length := by
  unfold fresh
  cases hstart : old.started with
  | true =>
    refine ⟨old.arguments, rfl, ?_⟩
    rw [h.emitted, if_pos hstart]
  | false =>
    refine ⟨"", (String.empty_append).symm, ?_⟩
    rw [h.emitted, hstart]
    rfl

/-- The state of a tool call after a fragment that left it with a name. -/
def advance (finishing : Bool) (old : ToolCallState) (call : DeltaToolCall) : ToolCallState :=
  { old.apply call with
    emittedLen := (old.apply call).arguments.length
    started := true
    stopped := old.stopped || finishing }

def advanceEvents (finishing : Bool) (offset : Nat) (old : ToolCallState) (call : DeltaToolCall) :
    List StreamEvent :=
  (if old.started then []
    else [.contentBlockStart (call.index + offset)
      (.toolUse (((old.apply call).id).getD ("tool_call_" ++ toString call.index))
        (((old.apply call).name).getD "") (.object []))]) ++
  (if old.fresh call = "" then []
    else [.contentBlockDelta (call.index + offset) (.inputJsonDelta (old.fresh call))]) ++
  (if finishing && !old.stopped then [.contentBlockStop (call.index + offset)] else [])

end ToolCallState

namespace StreamState

open ToolCallState

variable {offset : Nat} {entries : List (Nat × ToolCallState)}
variable {change : ToolCallState → Option (ToolCallState × List StreamEvent)}
variable {call : DeltaToolCall} {events : List StreamEvent}

theorem advanceTool_of {finishing : Bool} {index : Nat} {state : ToolCallState}
    {opening : List StreamEvent} {emitted : ToolCallState × Option StreamEvent}
    (hindex : state.blockIndex offset = some index)
    (hopening : (if state.started then some (some []) else
      (state.startEvent offset).map fun start => start.map fun event => [event]) =
        some (some opening))
    (hdelta : ({ state with started := true } : ToolCallState).deltaEvent offset = some emitted) :
    advanceTool finishing offset state =
      some ({ emitted.1 with stopped := state.stopped || (finishing && !state.stopped) },
        opening ++ emitted.2.toList ++
          if (finishing && !state.stopped) = true then [.contentBlockStop index] else []) := by
  simp only [advanceTool, hindex, hopening, hdelta, Option.bind_eq_bind, Option.bind_some,
    Option.pure_def]

theorem advanceTool_overflow (finishing : Bool) (old : ToolCallState)
    (h : 2 ^ 32 ≤ call.index + offset) :
    advanceTool finishing offset (old.apply call) = none := by
  have hindex : (old.apply call).blockIndex offset = none := if_neg (Nat.not_lt.mpr h)
  simp [advanceTool, hindex]

variable {old t : ToolCallState}
variable {change' : ToolCallState → Option (ToolCallState × List StreamEvent)}
variable {result : StreamState × List StreamEvent} {i : Nat} {text : String}

theorem advanceTool_unnamed (finishing : Bool) (hfit : call.index + offset < 2 ^ 32)
    (htidy : old.Tidy) (hname : (old.apply call).name = none) :
    advanceTool finishing offset (old.apply call) = some (old.apply call, []) := by
  have hindex : (old.apply call).blockIndex offset = some (call.index + offset) := if_pos hfit
  have hstart : (old.apply call).started = false := by
    have hold : old.name = none := by
      cases hcall : call.function.name <;> simp_all [ToolCallState.apply]
    change old.started = false
    rw [htidy.started, hold]
    rfl
  simp [advanceTool, hindex, hstart, startEvent, hname]

theorem advanceTool_named (finishing : Bool) (hfit : call.index + offset < 2 ^ 32)
    (htidy : old.Tidy) (hname : (old.apply call).name.isSome = true) :
    advanceTool finishing offset (old.apply call) =
      some (old.advance finishing call, old.advanceEvents finishing offset call) := by
  obtain ⟨name, hsome⟩ := Option.isSome_iff_exists.mp hname
  obtain ⟨done, hdone, hlen⟩ := htidy.arguments_eq call
  have hindex : (old.apply call).blockIndex offset = some (call.index + offset) := if_pos hfit
  have hdelta := deltaEvent_eq { old.apply call with started := true } offset hdone hlen hfit
  have hstop : (old.stopped || (finishing && !old.stopped)) = (old.stopped || finishing) := by
    cases old.stopped <;> cases finishing <;> rfl
  have hopening : (if (old.apply call).started then some (some []) else
      ((old.apply call).startEvent offset).map fun start => start.map fun event => [event]) =
        some (some (if old.started then [] else [.contentBlockStart (call.index + offset)
          (.toolUse (((old.apply call).id).getD ("tool_call_" ++ toString call.index))
            (((old.apply call).name).getD "") (.object []))])) := by
    change (if old.started then _ else _) = _
    cases old.started with
    | true => rfl
    | false =>
      simp only [startEvent, hsome, hindex, Option.bind_eq_bind, Option.bind_some,
        Bool.false_eq_true, if_false, Option.getD_some]
      rfl
  rw [advanceTool_of hindex hopening hdelta]
  refine congrArg some (Prod.ext ?_ ?_)
  · exact congrArg (fun stopped => { old.advance finishing call with stopped }) hstop
  · unfold advanceEvents
    refine congrArg₂ (· ++ ·) (congrArg _ ?_) rfl
    by_cases hempty : old.fresh call = ""
    · rw [if_pos hempty, if_pos hempty]
      rfl
    · rw [if_neg hempty, if_neg hempty]
      rfl

theorem stopTool_eq (offset : Nat) (t : ToolCallState) :
    stopTool offset t =
      if t.isOpen && !decide (t.openaiIndex + offset < 2 ^ 32) then none
      else some (t.shut, if t.isOpen then [.contentBlockStop (t.openaiIndex + offset)] else []) := by
  obtain ⟨index, id, name, arguments, emittedLen, started, stopped⟩ := t
  cases started with
  | false => cases stopped <;> rfl
  | true =>
    cases stopped with
    | true => rfl
    | false =>
      by_cases hfit : index + offset < 2 ^ 32
      · simp only [stopTool, isOpen, shut, blockIndex, if_pos hfit, decide_eq_true hfit,
          Bool.not_true, Bool.and_false, Bool.false_eq_true, if_false]
        rfl
      · simp only [stopTool, isOpen, shut, blockIndex, if_neg hfit, decide_eq_false hfit]
        rfl

theorem finishTool_eq (offset : Nat) (h : t.Tidy) :
    finishTool offset t = stopTool offset t := by
  unfold finishTool
  cases hstart : t.started with
  | true => rfl
  | false =>
    have hname : t.name = none := by
      rw [h.started] at hstart
      simpa using hstart
    simp [startEvent, hname]

def stopEvents (offset : Nat) (entries : List (Nat × ToolCallState)) : List StreamEvent :=
  (entries.filter fun e => e.2.isOpen).map fun e => .contentBlockStop (e.1 + offset)

theorem forTools_stop (hindex : ∀ e ∈ entries, e.2.openaiIndex = e.1)
    {result : List (Nat × ToolCallState) × List StreamEvent}
    (h : forTools (stopTool offset) entries = some result) :
    result = (entries.map fun e => (e.1, e.2.shut), stopEvents offset entries) := by
  induction entries generalizing result with
  | nil =>
    cases h
    rfl
  | cons e rest ih =>
    obtain ⟨key, t⟩ := e
    simp only [forTools, Option.bind_eq_bind, Option.bind_eq_some_iff] at h
    obtain ⟨first, hfirst, others, hothers, heq⟩ := h
    cases heq
    have hkey : t.openaiIndex = key := hindex _ mem_cons_self
    rw [stopTool_eq] at hfirst
    split at hfirst
    · cases hfirst
    · cases hfirst
      rw [ih (fun e he => hindex e (mem_cons_of_mem _ he)) hothers]
      unfold stopEvents
      cases hopen : t.isOpen <;> simp [hopen, hkey]

theorem forTools_stop_of_fit (hindex : ∀ e ∈ entries, e.2.openaiIndex = e.1)
    (hfit : ∀ e ∈ entries, e.2.isOpen = true → e.1 + offset < 2 ^ 32) :
    forTools (stopTool offset) entries =
      some (entries.map fun e => (e.1, e.2.shut), stopEvents offset entries) := by
  have hsome : (forTools (stopTool offset) entries).isSome = true := by
    induction entries with
    | nil => rfl
    | cons e rest ih =>
      obtain ⟨key, t⟩ := e
      have hkey : t.openaiIndex = key := hindex _ mem_cons_self
      have hrest := ih (fun e he => hindex e (mem_cons_of_mem _ he))
        fun e he => hfit e (mem_cons_of_mem _ he)
      obtain ⟨others, hothers⟩ := Option.isSome_iff_exists.mp hrest
      have hfirst : (stopTool offset t).isSome = true := by
        rw [stopTool_eq, hkey]
        cases hopen : t.isOpen with
        | true =>
          have hsmall : key + offset < 2 ^ 32 := hfit (key, t) mem_cons_self hopen
          rw [decide_eq_true hsmall]
          rfl
        | false => rfl
      obtain ⟨first, hfirst⟩ := Option.isSome_iff_exists.mp hfirst
      simp [forTools, hfirst, hothers]
  obtain ⟨result, hres⟩ := Option.isSome_iff_exists.mp hsome
  rw [hres, forTools_stop hindex hres]

theorem forTools_congr (h : ∀ e ∈ entries, change e.2 = change' e.2) :
    forTools change entries = forTools change' entries := by
  induction entries with
  | nil => rfl
  | cons e rest ih =>
    obtain ⟨key, t⟩ := e
    rw [forTools, forTools, h _ mem_cons_self,
      ih fun e he => h e (mem_cons_of_mem _ he)]

theorem changeTools_of_some {s : StreamState}
    (h : forTools change s.toolCalls.entries = some (entries, events)) :
    changeTools change s =
      some ({ s with toolCalls := ⟨entries, forTools_keys h ▸ s.toolCalls.sorted⟩ }, events) := by
  unfold changeTools
  split
  · rename_i hnone
    rw [h] at hnone
    cases hnone
  · rename_i result hres
    rw [h] at hres
    cases hres
    rfl

theorem changeTools_none {s : StreamState} (h : forTools change s.toolCalls.entries = none) :
    changeTools change s = none := by
  unfold changeTools
  split
  · rfl
  · rename_i hres
    rw [h] at hres
    cases hres

def shutTools (s : StreamState) : StreamState :=
  { s with toolCalls := s.toolCalls.mapValues fun _ t => t.shut }

/-- The tool calls of the state are stored under their own indices. -/
def Indexed (s : StreamState) : Prop := ∀ e ∈ s.toolCalls.entries, e.2.openaiIndex = e.1

theorem changeTools_stop {s : StreamState} (hindex : s.Indexed)
    (h : changeTools (stopTool offset) s = some result) :
    result = (s.shutTools, stopEvents offset s.toolCalls.entries) := by
  cases hfor : forTools (stopTool offset) s.toolCalls.entries with
  | none =>
    rw [changeTools_none hfor] at h
    cases h
  | some pair =>
    obtain ⟨entries, events⟩ := pair
    rw [changeTools_of_some hfor] at h
    cases h
    have hpair := forTools_stop hindex hfor
    cases hpair
    rfl

theorem changeTools_stop_of_fit {s : StreamState} (hindex : s.Indexed)
    (hfit : ∀ e ∈ s.toolCalls.entries, e.2.isOpen = true → e.1 + offset < 2 ^ 32) :
    changeTools (stopTool offset) s =
      some (s.shutTools, stopEvents offset s.toolCalls.entries) :=
  changeTools_of_some (forTools_stop_of_fit hindex hfit)

theorem changeTools_congr {s : StreamState}
    (h : ∀ e ∈ s.toolCalls.entries, change e.2 = change' e.2) :
    changeTools change s = changeTools change' s := by
  have hfor := forTools_congr h
  cases hres : forTools change' s.toolCalls.entries with
  | none => rw [changeTools_none (hfor.trans hres), changeTools_none hres]
  | some pair => rw [changeTools_of_some (hfor.trans hres), changeTools_of_some hres]

/-- What holds in every state of a translation until its end. -/
structure Regular (s : StreamState) : Prop where
  tools : ∀ i t, s.toolCalls.get i = some t → t.openaiIndex = i ∧ t.Tidy
  thought : s.thinkingFinished = true → s.thinkingStarted = true
  textOpen : s.textFinished = false
  unfinished : s.finished = false

/-- The tool call with an index, if only as it is before its first fragment. -/
def tool (s : StreamState) (i : Nat) : ToolCallState :=
  (s.toolCalls.get i).getD ToolCallState.default

theorem new_regular (model : String) : (new model).Regular where
  tools := by
    intro i t h
    cases h
  thought := by
    intro h
    cases h
  textOpen := rfl
  unfinished := rfl

variable {s : StreamState}

theorem Regular.indexed (h : s.Regular) : s.Indexed := fun e he =>
  (h.tools e.1 e.2 ((OrderedMap.get_eq_some_iff _ _ _).mpr he)).1

theorem Regular.tool_tidy (h : s.Regular) (i : Nat) : (s.tool i).Tidy := by
  unfold tool
  cases hget : s.toolCalls.get i with
  | none => exact default_tidy
  | some t => exact (h.tools i t hget).2

theorem tool_of_mem {e : Nat × ToolCallState} (he : e ∈ s.toolCalls.entries) :
    s.tool e.1 = e.2 := by
  unfold tool
  rw [(OrderedMap.get_eq_some_iff _ _ _).mpr he]
  rfl

theorem mem_of_tool_started (h : (s.tool i).started = true) :
    (i, s.tool i) ∈ s.toolCalls.entries := by
  cases hget : s.toolCalls.get i with
  | none =>
    rw [tool, hget] at h
    cases h
  | some t =>
    rw [tool, hget]
    exact (OrderedMap.get_eq_some_iff _ _ _).mp hget

def setTool (s : StreamState) (i : Nat) (t : ToolCallState) : StreamState :=
  { s with toolCalls := s.toolCalls.upsert i fun _ => t }

theorem tool_setTool (i : Nat) (t : ToolCallState) :
    (s.setTool i t).tool = Function.update s.tool i t := by
  funext j
  change ((s.toolCalls.upsert i fun _ => t).get j).getD _ = _
  rw [OrderedMap.get_upsert]
  rcases eq_or_ne j i with rfl | hne
  · rw [if_pos rfl, Function.update_self]
    rfl
  · rw [if_neg hne, Function.update_of_ne hne]
    rfl

theorem tool_shutTools (i : Nat) : s.shutTools.tool i = (s.tool i).shut := by
  change ((s.toolCalls.mapValues fun _ t => t.shut).get i).getD _ = _
  rw [OrderedMap.get_mapValues, tool]
  cases s.toolCalls.get i <;> rfl

theorem Regular.setTool (h : s.Regular) (hindex : t.openaiIndex = i) (htidy : t.Tidy) :
    (s.setTool i t).Regular where
  tools := by
    intro j t' hget
    change (s.toolCalls.upsert i fun _ => t).get j = some t' at hget
    rw [OrderedMap.get_upsert] at hget
    split at hget
    · rename_i heq
      cases hget
      exact ⟨hindex.trans heq.symm, htidy⟩
    · exact h.tools j t' hget
  thought := h.thought
  textOpen := h.textOpen
  unfinished := h.unfinished

theorem Regular.shutTools (h : s.Regular) : s.shutTools.Regular where
  tools := by
    intro i t hget
    change (s.toolCalls.mapValues fun _ t => t.shut).get i = some t at hget
    rw [OrderedMap.get_mapValues, Option.map_eq_some_iff] at hget
    obtain ⟨old, hold, rfl⟩ := hget
    exact ⟨(h.tools i old hold).1, (h.tools i old hold).2.shut⟩
  thought := h.thought
  textOpen := h.textOpen
  unfinished := h.unfinished

/-- The state after the thinking block was closed, if it was open. -/
def thoughtOver (s : StreamState) : StreamState :=
  { s with thinkingFinished := s.thinkingStarted || s.thinkingFinished }

theorem closeThinking_fst : s.closeThinking.1 = s.thoughtOver := by
  unfold closeThinking thoughtOver
  cases s with
  | mk model messageStarted textStarted textFinished finished stopReason usage toolCalls
      thinkingStarted thinkingFinished =>
    cases thinkingStarted <;> cases thinkingFinished <;> rfl

theorem Regular.thoughtOver (h : s.Regular) : s.thoughtOver.Regular where
  tools := h.tools
  thought := by
    intro hfinished
    change (s.thinkingStarted || s.thinkingFinished) = true at hfinished
    change s.thinkingStarted = true
    cases hs : s.thinkingStarted with
    | true => rfl
    | false =>
      rw [hs, Bool.false_or] at hfinished
      rw [← hs]
      exact h.thought hfinished
  textOpen := h.textOpen
  unfinished := h.unfinished

def opens (s : StreamState) (call : DeltaToolCall) : Bool :=
  !(s.tool call.index).started && ((s.tool call.index).apply call).name.isSome

def toolAfter (finishing : Bool) (s : StreamState) (call : DeltaToolCall) : ToolCallState :=
  if ((s.tool call.index).apply call).name.isSome then (s.tool call.index).advance finishing call
  else (s.tool call.index).apply call

def toolEvents (finishing : Bool) (s : StreamState) (call : DeltaToolCall) : List StreamEvent :=
  if ((s.tool call.index).apply call).name.isSome then
    (s.tool call.index).advanceEvents finishing s.toolIndexOffset call
  else []

theorem ingestToolCall_eq (h : s.Regular) (finishing : Bool) (call : DeltaToolCall) :
    ingestToolCall finishing s call =
      if call.index + s.toolIndexOffset < 2 ^ 32 then
        some (s.thoughtOver.setTool call.index (s.toolAfter finishing call),
          s.closeThinking.2 ++ s.toolEvents finishing call)
      else none := by
  have htidy := h.tool_tidy call.index
  have hold : (s.thoughtOver.toolCalls.get call.index).getD ToolCallState.default =
      s.tool call.index := rfl
  have hoffset : s.thoughtOver.toolIndexOffset = s.toolIndexOffset := rfl
  unfold ingestToolCall
  dsimp only
  rw [closeThinking_fst, hold, hoffset]
  by_cases hfit : call.index + s.toolIndexOffset < 2 ^ 32
  · rw [if_pos hfit]
    cases hname : ((s.tool call.index).apply call).name with
    | none =>
      rw [advanceTool_unnamed finishing hfit htidy hname]
      simp only [toolAfter, toolEvents, hname]
      rfl
    | some name =>
      have hsome : ((s.tool call.index).apply call).name.isSome = true := by
        rw [hname]
        rfl
      rw [advanceTool_named finishing hfit htidy hsome]
      simp only [toolAfter, toolEvents, hsome]
      rfl
  · rw [if_neg hfit, advanceTool_overflow finishing _ (Nat.le_of_not_lt hfit)]
    rfl

theorem Regular.toolAfter_tidy (h : s.Regular) (finishing : Bool) (call : DeltaToolCall) :
    (s.toolAfter finishing call).openaiIndex = call.index ∧
      (s.toolAfter finishing call).Tidy := by
  have htidy := h.tool_tidy call.index
  unfold toolAfter
  cases hname : ((s.tool call.index).apply call).name with
  | none =>
    have hold : (s.tool call.index).name = none := by
      cases hcall : call.function.name with
      | none => simpa [ToolCallState.apply, hcall] using hname
      | some name => simp [ToolCallState.apply, hcall] at hname
    have hstart : (s.tool call.index).started = false := by
      rw [htidy.started, hold]
      rfl
    refine ⟨rfl, ?_, ?_, htidy.stopped⟩
    · change (s.tool call.index).started = _
      rw [hstart]
      simp [hname]
    · change (s.tool call.index).emittedLen = if (s.tool call.index).started then _ else 0
      rw [htidy.emitted, hstart]
      rfl
  | some name =>
    refine ⟨rfl, ?_, rfl, fun _ => rfl⟩
    change true = (((s.tool call.index).apply call).name).isSome
    rw [hname]
    rfl

theorem ingestOpening_fst (chunk : ChatCompletionChunk) :
    (s.ingestOpening chunk).1 = { s with
      messageStarted := true
      usage := (chunk.usage.map fun u => ⟨u.promptTokens, 0, 0, u.completionTokens⟩).or
        s.usage } := by
  cases s with
  | mk model messageStarted textStarted textFinished finished stopReason usage toolCalls
      thinkingStarted thinkingFinished => cases messageStarted <;> rfl

theorem ingestContent_eq (htext : text ≠ "") :
    s.ingestContent text = ({ s.thoughtOver with textStarted := true },
      s.closeThinking.2 ++
        (if s.textStarted then [] else [.contentBlockStart s.textBlockIndex (.text "")]) ++
        [.contentBlockDelta s.textBlockIndex (.textDelta text)]) := by
  unfold ingestContent
  rw [if_neg htext]
  dsimp only
  rw [closeThinking_fst]
  rfl

theorem ingestReasoning_eq (htext : text ≠ "") :
    s.ingestReasoning text = ({ s with thinkingStarted := true },
      (if s.thinkingStarted then [] else [.contentBlockStart 0 (.thinking "" none)]) ++
        [.contentBlockDelta 0 (.thinkingDelta text)]) :=
  if_neg htext

theorem ingestFinishReason_cases (h : s.Regular) {reason : String}
    (hingest : s.ingestFinishReason reason = some result) :
    (reason ≠ "tool_calls" ∧
        result = ({ s with stopReason := some (normalizeFinishReason reason) }, [])) ∨
      (reason = "tool_calls" ∧
        result = ({ s.shutTools with stopReason := some (normalizeFinishReason reason) },
          stopEvents s.toolIndexOffset s.toolCalls.entries)) := by
  unfold ingestFinishReason at hingest
  split at hingest
  · rename_i heq
    have hres := changeTools_stop (s := { s with
      stopReason := some (normalizeFinishReason reason) }) h.indexed hingest
    exact .inr ⟨heq, hres⟩
  · rename_i hne
    cases hingest
    exact .inl ⟨hne, rfl⟩

theorem Regular.ingest (h : s.Regular) {input : Input} {next : StreamState}
    (hingest : s.ingest input = some (next, events)) :
    next.Regular := by
  cases input with
  | chunk chunk =>
    have hnext : (s.ingestOpening chunk).1 = next := congrArg Prod.fst (Option.some.inj hingest)
    rw [← hnext, ingestOpening_fst]
    exact ⟨h.tools, h.thought, h.textOpen, h.unfinished⟩
  | reasoning text =>
    have hstep : s.ingestReasoning text = (next, events) := Option.some.inj hingest
    by_cases htext : text = ""
    · subst htext
      cases hstep
      exact h
    · rw [ingestReasoning_eq htext] at hstep
      cases hstep
      exact ⟨h.tools, fun _ => rfl, h.textOpen, h.unfinished⟩
  | content text =>
    have hstep : s.ingestContent text = (next, events) := Option.some.inj hingest
    by_cases htext : text = ""
    · subst htext
      cases hstep
      exact h
    · rw [ingestContent_eq htext] at hstep
      cases hstep
      have hover := h.thoughtOver
      exact ⟨hover.tools, hover.thought, hover.textOpen, hover.unfinished⟩
  | toolCall finishing call =>
    rw [StreamState.ingest, ingestToolCall_eq h] at hingest
    split at hingest
    · cases hingest
      have hafter := h.toolAfter_tidy finishing call
      exact h.thoughtOver.setTool hafter.1 hafter.2
    · cases hingest
  | finishReason reason =>
    rcases ingestFinishReason_cases h hingest with ⟨-, heq⟩ | ⟨-, heq⟩
    · cases heq
      exact ⟨h.tools, h.thought, h.textOpen, h.unfinished⟩
    · cases heq
      have hshut := h.shutTools
      exact ⟨hshut.tools, hshut.thought, hshut.textOpen, hshut.unfinished⟩

def endEvents (s : StreamState) : List StreamEvent :=
  s.closeThinking.2 ++ (if s.textStarted then [.contentBlockStop s.textBlockIndex] else []) ++
    stopEvents s.toolIndexOffset s.toolCalls.entries ++ s.endMessage

/-- The state before the tool calls are closed at the end. -/
def textOver (s : StreamState) : StreamState :=
  { s.thoughtOver with finished := true, textFinished := s.textStarted }

theorem Regular.finish_eq (h : s.Regular) :
    s.finish = (changeTools (stopTool s.toolIndexOffset) s.textOver).map fun called =>
      (called.1, s.closeThinking.2 ++
        (if s.textStarted then [.contentBlockStop s.textBlockIndex] else []) ++ called.2 ++
          called.1.endMessage) := by
  have hthought : ({ s with finished := true } : StreamState).closeThinking =
      ({ s.thoughtOver with finished := true }, s.closeThinking.2) := by
    cases s with
    | mk model messageStarted textStarted textFinished finished stopReason usage toolCalls
        thinkingStarted thinkingFinished =>
      cases thinkingStarted <;> cases thinkingFinished <;> rfl
  have hsaid : ({ s.thoughtOver with finished := true } : StreamState).closeText =
      (s.textOver, if s.textStarted then [.contentBlockStop s.textBlockIndex] else []) := by
    have hopen := h.textOpen
    cases s with
    | mk model messageStarted textStarted textFinished finished stopReason usage toolCalls
        thinkingStarted thinkingFinished =>
      cases hopen
      cases textStarted <;> rfl
  have htools : changeTools (finishTool s.toolIndexOffset) s.textOver =
      changeTools (stopTool s.toolIndexOffset) s.textOver :=
    changeTools_congr fun e he => finishTool_eq _
      (h.tools e.1 e.2 ((OrderedMap.get_eq_some_iff _ _ _).mpr he)).2
  have hoffset : s.textOver.toolIndexOffset = s.toolIndexOffset := rfl
  unfold finish
  rw [h.unfinished, if_neg Bool.false_ne_true]
  dsimp only
  rw [hthought, hsaid, hoffset, htools]
  cases changeTools (stopTool s.toolIndexOffset) s.textOver <;> rfl

theorem Regular.finish_events (h : s.Regular) {last : StreamState}
    (hfinish : s.finish = some (last, events)) : events = s.endEvents := by
  rw [h.finish_eq, Option.map_eq_some_iff] at hfinish
  obtain ⟨called, hcalled, heq⟩ := hfinish
  have hindexed : s.textOver.Indexed := h.indexed
  cases changeTools_stop hindexed hcalled
  cases heq
  rfl

theorem Regular.finish_of_fit (h : s.Regular)
    (hfit : ∀ e ∈ s.toolCalls.entries, e.2.isOpen = true → e.1 + s.toolIndexOffset < 2 ^ 32) :
    ∃ last, s.finish = some (last, s.endEvents) := by
  have hindexed : s.textOver.Indexed := h.indexed
  rw [h.finish_eq, changeTools_stop_of_fit hindexed hfit]
  exact ⟨_, rfl⟩

end StreamState

end DbClinic.Api
