import DbClinic.Api.StreamSteps
import DbClinic.Api.StreamLayout

/-!
The order of inputs in which a translation keeps its blocks apart. `InOrder`
asks of an input that the blocks it needs are open or free in the state before
it. An input in order keeps the layout placed; one out of order ends the
translation, emits an event no block accepts, or moves the index of a block
that is open, so that the end of the stream does.
-/

namespace DbClinic.Api

open Blocks List Function

namespace StreamState

def layout (s : StreamState) : Layout where
  thinkingStarted := s.thinkingStarted
  thinkingFinished := s.thinkingFinished
  textStarted := s.textStarted
  started := fun i => (s.tool i).started
  stopped := fun i => (s.tool i).stopped

def nextBlock (s : StreamState) (block : Nat → Nat) : Input → Nat → Nat
  | .toolCall _ call =>
    if s.opens call then Function.update block call.index (call.index + s.toolIndexOffset)
    else block
  | .chunk _ | .reasoning _ | .content _ | .finishReason _ => block

/-- An input that comes in order. Reasoning comes before its block is closed,
and opens it before the text and while no tool call is open; the text block and
the block of a tool call are opened at an index that is free; a tool call whose
block is closed has no more arguments, and every block index fits. -/
def InOrder (s : StreamState) (block : Nat → Nat) : Input → Prop
  | .reasoning text => text ≠ "" → s.thinkingFinished = false ∧
      (s.thinkingStarted = false → s.textStarted = false ∧
        ∀ e ∈ s.toolCalls.entries, e.2.started = true → e.2.stopped = true)
  | .content text => text ≠ "" → s.textStarted = false →
      ∀ e ∈ s.toolCalls.entries, e.2.started = true → block e.1 ≠ s.textBlockIndex
  | .toolCall _ call => call.index + s.toolIndexOffset < 2 ^ 32 ∧
      ((s.tool call.index).stopped = true → call.function.arguments.getD "" = "") ∧
      (s.opens call = true → ∀ e ∈ s.toolCalls.entries, e.2.started = true →
        block e.1 ≠ call.index + s.toolIndexOffset)
  | .chunk _ | .finishReason _ => True

def Orderly : StreamState → (Nat → Nat) → List Input → Prop
  | _, _, [] => True
  | s, block, input :: rest => s.InOrder block input ∧
      ∀ next events, s.ingest input = some (next, events) →
        Orderly next (s.nextBlock block input) rest

variable {s : StreamState} {block : Nat → Nat} {blocks : Nat → BlockStatus BlockKind}

theorem forall_started_iff {P : Nat → ToolCallState → Prop} :
    (∀ e ∈ s.toolCalls.entries, e.2.started = true → P e.1 e.2) ↔
      ∀ i, (s.tool i).started = true → P i (s.tool i) := by
  constructor
  · intro h i hi
    exact h (i, s.tool i) (mem_of_tool_started hi) hi
  · intro h e he hstart
    have htool := tool_of_mem he
    have hi := h e.1 (htool ▸ hstart)
    exact htool ▸ hi

theorem layout_setTool (i : Nat) (t : ToolCallState) :
    (s.setTool i t).layout = { s.layout with
      started := Function.update s.layout.started i t.started
      stopped := Function.update s.layout.stopped i t.stopped } := by
  have hstart := comp_update ToolCallState.started s.tool i t
  have hstopped := comp_update ToolCallState.stopped s.tool i t
  rw [← tool_setTool] at hstart hstopped
  exact congrArg₂ (fun started stopped => { s.layout with started, stopped }) hstart hstopped

theorem layout_shutTools :
    s.shutTools.layout = { s.layout with
      stopped := fun i => (s.tool i).stopped || (s.tool i).started } := by
  have hstart : (fun i => (s.shutTools.tool i).started) = fun i => (s.tool i).started :=
    funext fun i => by rw [tool_shutTools]; rfl
  have hstopped : (fun i => (s.shutTools.tool i).stopped) =
      fun i => (s.tool i).stopped || (s.tool i).started :=
    funext fun i => by rw [tool_shutTools]; rfl
  exact congrArg₂ (fun started stopped => { s.layout with started, stopped }) hstart hstopped

theorem new_placed (model : String) :
    (new model).layout.Placed (fun _ => 0) fun _ => .absent where
  thinking := nofun
  text := nofun
  tool := nofun
  absent := fun _ _ _ _ => rfl
  current := nofun
  positive := nofun
  distinct := nofun
  stopped := nofun

theorem closeThinking_open (hstart : s.thinkingStarted = true)
    (hdone : s.thinkingFinished = false) : s.closeThinking.2 = [.contentBlockStop 0] := by
  unfold closeThinking
  rw [hstart, hdone]
  rfl

theorem closeThinking_shut (hshut : s.thinkingFinished = s.thinkingStarted) :
    s.thoughtOver = s ∧ s.closeThinking.2 = [] := by
  have hover : (s.thinkingStarted || s.thinkingFinished) = s.thinkingFinished := by
    rw [hshut, Bool.or_self]
  refine ⟨congrArg (fun finished => { s with thinkingFinished := finished }) hover, ?_⟩
  unfold closeThinking
  rw [hshut, Bool.and_not_self]
  rfl

theorem thinking_open_or_shut (h : s.Regular) :
    (s.thinkingStarted = true ∧ s.thinkingFinished = false) ∨
      s.thinkingFinished = s.thinkingStarted := by
  cases hdone : s.thinkingFinished with
  | true => exact .inr (h.thought hdone).symm
  | false =>
    cases hstart : s.thinkingStarted with
    | true => exact .inl ⟨rfl, rfl⟩
    | false => exact .inr rfl

theorem replay_closeThinking (h : s.Regular) (hplaced : s.layout.Placed block blocks) :
    ∃ after, replay blocks (blocksOf s.closeThinking.2) = some after ∧
      s.thoughtOver.layout.Placed block after := by
  rcases thinking_open_or_shut h with ⟨hstart, hdone⟩ | hshut
  · have hblock : blocks 0 = .opened .thinking := by
      have hstatus := hplaced.thinking hstart
      rwa [if_neg (by simp [layout, hdone])] at hstatus
    have hover : (s.thinkingStarted || s.thinkingFinished) = true := by
      rw [hstart, Bool.true_or]
    have hlayout : s.thoughtOver.layout = { s.layout with thinkingFinished := true } :=
      congrArg (fun finished => { s.layout with thinkingFinished := finished }) hover
    refine ⟨Function.update blocks 0 .closed, ?_, hlayout ▸ hplaced.closeThinking hstart⟩
    rw [closeThinking_open hstart hdone, blocksOf_stop, replay_stop hblock]
    rfl
  · obtain ⟨hsame, hevents⟩ := closeThinking_shut hshut
    rw [hsame, hevents]
    exact ⟨blocks, rfl, hplaced⟩

variable {text : String} {finishing : Bool} {call : DeltaToolCall}

theorem replay_ingestReasoning (hplaced : s.layout.Placed block blocks)
    (hin : s.InOrder block (.reasoning text)) :
    ∃ after, replay blocks (blocksOf (s.ingestReasoning text).2) = some after ∧
      (s.ingestReasoning text).1.layout.Placed block after := by
  by_cases htext : text = ""
  · subst htext
    exact ⟨blocks, rfl, hplaced⟩
  · obtain ⟨hdone, hfirst⟩ := hin htext
    rw [ingestReasoning_eq htext]
    cases hstart : s.thinkingStarted with
    | true =>
      have hblock : blocks 0 = .opened .thinking := by
        have hstatus := hplaced.thinking hstart
        rwa [if_neg (by simp [layout, hdone])] at hstatus
      have hlayout : ({ s with thinkingStarted := true } : StreamState).layout = s.layout :=
        congrArg (fun started => { s.layout with thinkingStarted := started }) hstart.symm
      refine ⟨blocks, ?_, hlayout.symm ▸ hplaced⟩
      rw [if_pos rfl, nil_append, blocksOf_delta]
      exact replay_delta hblock _ []
    | false =>
      obtain ⟨htext, htools⟩ := hfirst hstart
      rw [forall_started_iff (P := fun _ t => t.stopped = true)] at htools
      have hblock : blocks 0 = .absent := by
        refine hplaced.absent 0 (fun hs => ?_) (fun ht => ?_)
          fun i hi => (hplaced.positive i hi).ne'
        · rw [show s.layout.thinkingStarted = false from hstart] at hs
          cases hs
        · rw [show s.layout.textStarted = false from htext] at ht
          cases ht
      refine ⟨_, ?_, hplaced.openThinking hdone htext htools⟩
      rw [if_neg Bool.false_ne_true, singleton_append, blocksOf_start, replay_start hblock,
        blocksOf_delta]
      exact replay_delta (update_self ..) _ []

theorem replay_ingestContent (h : s.Regular) (hplaced : s.layout.Placed block blocks)
    (hin : s.InOrder block (.content text)) :
    ∃ after, replay blocks (blocksOf (s.ingestContent text).2) = some after ∧
      (s.ingestContent text).1.layout.Placed block after := by
  by_cases htext : text = ""
  · subst htext
    exact ⟨blocks, rfl, hplaced⟩
  · rw [ingestContent_eq htext]
    obtain ⟨closed, hclosed, hover⟩ := replay_closeThinking h hplaced
    cases hstart : s.textStarted with
    | true =>
      have hlayout : ({ s.thoughtOver with textStarted := true } : StreamState).layout =
          s.thoughtOver.layout :=
        congrArg (fun started => { s.thoughtOver.layout with textStarted := started })
          hstart.symm
      have hblock : closed s.textBlockIndex = .opened .text := hover.text hstart
      refine ⟨closed, ?_, hlayout.symm ▸ hover⟩
      rw [if_pos rfl, append_nil, blocksOf_append, replay_append, hclosed, Option.bind_some,
        blocksOf_delta]
      exact replay_delta hblock _ []
    | false =>
      have hfree := hin htext hstart
      rw [forall_started_iff (P := fun i _ => block i ≠ s.textBlockIndex)] at hfree
      have hblock : closed s.textBlockIndex = .absent := by
        refine hover.absent _ (fun hs => ?_) (fun ht => ?_) hfree
        · have hindex : s.textBlockIndex = 1 := if_pos hs
          rw [hindex]
          decide
        · rw [show s.thoughtOver.layout.textStarted = false from hstart] at ht
          cases ht
      refine ⟨_, ?_, hover.openText hfree⟩
      rw [if_neg Bool.false_ne_true, append_assoc, blocksOf_append, replay_append, hclosed,
        Option.bind_some, singleton_append, blocksOf_start, replay_start hblock,
        blocksOf_delta]
      exact replay_delta (update_self ..) _ []

theorem blocksOf_advanceEvents (finishing : Bool) (offset : Nat) (old : ToolCallState)
    (call : DeltaToolCall) :
    blocksOf (old.advanceEvents finishing offset call) =
      (if old.started then [] else [.start (call.index + offset) .toolUse]) ++
        (if old.fresh call = "" then [] else [.delta (call.index + offset) .toolUse]) ++
        (if finishing && !old.stopped then [.stop (call.index + offset)] else []) := by
  unfold ToolCallState.advanceEvents
  rw [blocksOf_append, blocksOf_append]
  congr 1
  · congr 1
    · split <;> rfl
    · split <;> rfl
  · split <;> rfl

theorem replay_opening (hplaced : s.layout.Placed block blocks)
    (hin : s.InOrder block (.toolCall finishing call))
    (hname : ((s.tool call.index).apply call).name.isSome = true) :
    ∃ after, replay blocks (if (s.tool call.index).started then []
        else [.start (call.index + s.toolIndexOffset) .toolUse]) = some after ∧
      Layout.Placed { s.layout with started := Function.update s.layout.started call.index true }
        (s.nextBlock block (.toolCall finishing call)) after := by
  obtain ⟨hfit, -, hfree⟩ := hin
  cases hstart : (s.tool call.index).started with
  | true =>
    have hopens : s.opens call = false := by
      unfold opens
      rw [hstart]
      rfl
    have hblock : s.nextBlock block (.toolCall finishing call) = block :=
      if_neg (by rw [hopens]; exact Bool.false_ne_true)
    have hsame : Function.update s.layout.started call.index true = s.layout.started := by
      rw [← hstart]
      exact update_eq_self ..
    rw [hblock, hsame]
    exact ⟨blocks, rfl, hplaced⟩
  | false =>
    have hopens : s.opens call = true := by
      unfold opens
      rw [hstart, hname]
      rfl
    have hblock : s.nextBlock block (.toolCall finishing call) =
        Function.update block call.index (call.index + s.toolIndexOffset) := if_pos hopens
    have hfree := hfree hopens
    rw [forall_started_iff (P := fun i _ => block i ≠ call.index + s.toolIndexOffset)] at hfree
    rw [hblock]
    refine ⟨_, ?_, hplaced.openTool hstart hfit hfree⟩
    have habsent : blocks (call.index + s.toolIndexOffset) = .absent := hplaced.free_tool hfree
    rw [if_neg Bool.false_ne_true, replay_start habsent]
    rfl

theorem replay_toolEvents (h : s.Regular) (hplaced : s.layout.Placed block blocks)
    (hin : s.InOrder block (.toolCall finishing call)) :
    ∃ after, replay blocks (blocksOf (s.toolEvents finishing call)) = some after ∧
      (s.setTool call.index (s.toolAfter finishing call)).layout.Placed
        (s.nextBlock block (.toolCall finishing call)) after := by
  rw [layout_setTool]
  unfold toolEvents toolAfter
  cases hname : ((s.tool call.index).apply call).name.isSome with
  | false =>
    have hopens : s.opens call = false := by
      unfold opens
      rw [hname, Bool.and_false]
    have hblock : s.nextBlock block (.toolCall finishing call) = block :=
      if_neg (by rw [hopens]; exact Bool.false_ne_true)
    have hstart : Function.update s.layout.started call.index (s.tool call.index).started =
        s.layout.started := update_eq_self ..
    have hstopped : Function.update s.layout.stopped call.index (s.tool call.index).stopped =
        s.layout.stopped := update_eq_self ..
    rw [if_neg Bool.false_ne_true, if_neg Bool.false_ne_true, hblock]
    refine ⟨blocks, rfl, ?_⟩
    change Layout.Placed { s.layout with
      started := Function.update s.layout.started call.index (s.tool call.index).started
      stopped := Function.update s.layout.stopped call.index (s.tool call.index).stopped } _ _
    rw [hstart, hstopped]
    exact hplaced
  | true =>
    obtain ⟨opened, hopening, hopened⟩ := replay_opening hplaced hin hname
    rw [if_pos rfl, if_pos rfl, blocksOf_advanceEvents, replay_append, replay_append, hopening,
      Option.bind_some]
    have hself : Function.update s.layout.started call.index true call.index = true :=
      update_self ..
    have hopen (hnot : (s.tool call.index).stopped = false) :
        opened (call.index + s.toolIndexOffset) = .opened .toolUse := by
      have hstatus := hopened.tool call.index hself
      have hcur := (hopened.current call.index hself hnot).1
      rw [hcur, show s.layout.stopped call.index = false from hnot] at hstatus
      exact hstatus
    have hdelta : replay opened (if (s.tool call.index).fresh call = "" then []
        else [.delta (call.index + s.toolIndexOffset) .toolUse]) = some opened := by
      by_cases hempty : (s.tool call.index).fresh call = ""
      · rw [if_pos hempty]
        rfl
      · have hnot : (s.tool call.index).stopped = false := by
          cases hstopped : (s.tool call.index).stopped with
          | false => rfl
          | true =>
            have hfresh : (s.tool call.index).fresh call =
                call.function.arguments.getD "" :=
              if_pos ((h.tool_tidy call.index).stopped hstopped)
            exact absurd (hfresh.trans (hin.2.1 hstopped)) hempty
        rw [if_neg hempty]
        exact replay_delta (hopen hnot) _ []
    rw [hdelta, Option.bind_some]
    have hlayout (stopped : Bool) : ({ s.layout with
        started := Function.update s.layout.started call.index true
        stopped := Function.update s.layout.stopped call.index stopped } : Layout) =
      { ({ s.layout with
          started := Function.update s.layout.started call.index true } : Layout) with
        stopped := Function.update s.layout.stopped call.index stopped } := rfl
    change ∃ after, _ = some after ∧ Layout.Placed { s.layout with
      started := Function.update s.layout.started call.index true
      stopped := Function.update s.layout.stopped call.index
        ((s.tool call.index).stopped || finishing) } _ after
    by_cases hstop : (finishing && !(s.tool call.index).stopped) = true
    · rw [Bool.and_eq_true, Bool.not_eq_true'] at hstop
      obtain ⟨hfinishing, hnot⟩ := hstop
      rw [hfinishing, hnot, Bool.not_false, Bool.and_self, if_pos rfl, Bool.or_true, hlayout]
      refine ⟨_, ?_, hopened.stopTool hself hnot⟩
      rw [replay_stop (hopen hnot)]
      rfl
    · have hsame : ((s.tool call.index).stopped || finishing) = s.layout.stopped call.index := by
        change _ = (s.tool call.index).stopped
        cases hs : (s.tool call.index).stopped <;> cases hf : finishing <;> simp_all
      rw [if_neg hstop, hsame, update_eq_self]
      exact ⟨opened, rfl, hopened⟩

theorem blocksOf_stopEvents (offset : Nat) (entries : List (Nat × ToolCallState)) :
    blocksOf (stopEvents offset entries) =
      ((entries.filter fun e => e.2.isOpen).map fun e => e.1 + offset).map .stop := by
  unfold stopEvents blocksOf
  rw [filterMap_map, map_map]
  exact congrFun (filterMap_eq_map
    (f := fun e : Nat × ToolCallState => BlockEvent.stop (e.1 + offset))) _

theorem isOpen_iff (t : ToolCallState) :
    t.isOpen = true ↔ t.started = true ∧ t.stopped = false := by
  unfold ToolCallState.isOpen
  rw [Bool.and_eq_true, Bool.not_eq_true']

theorem Placed.fit (hplaced : s.layout.Placed block blocks) :
    ∀ e ∈ s.toolCalls.entries, e.2.isOpen = true → e.1 + s.toolIndexOffset < 2 ^ 32 := by
  intro e he hopen
  rw [← tool_of_mem he, isOpen_iff] at hopen
  exact (hplaced.current e.1 hopen.1 hopen.2).2

def openBlocks (s : StreamState) : List Nat :=
  (s.toolCalls.entries.filter fun e => e.2.isOpen).map fun e => e.1 + s.toolIndexOffset

theorem mem_openBlocks (hplaced : s.layout.Placed block blocks) {k : Nat} :
    k ∈ s.openBlocks ↔
      ∃ i, (s.tool i).started = true ∧ (s.tool i).stopped = false ∧ block i = k := by
  unfold openBlocks
  rw [mem_map]
  constructor
  · rintro ⟨e, he, rfl⟩
    obtain ⟨he, hopen⟩ := mem_filter.mp he
    rw [← tool_of_mem he, isOpen_iff] at hopen
    exact ⟨e.1, hopen.1, hopen.2, (hplaced.current e.1 hopen.1 hopen.2).1⟩
  · rintro ⟨i, hstart, hnot, rfl⟩
    refine ⟨(i, s.tool i), mem_filter.mpr ⟨mem_of_tool_started hstart, ?_⟩, ?_⟩
    · exact (isOpen_iff _).mpr ⟨hstart, hnot⟩
    · exact (hplaced.current i hstart hnot).1.symm

theorem openBlocks_nodup (s : StreamState) : s.openBlocks.Nodup := by
  have hkeys : ((s.toolCalls.entries.filter fun e => e.2.isOpen).map Prod.fst).Nodup :=
    s.toolCalls.nodup.sublist (filter_sublist.map Prod.fst)
  have hmap := hkeys.map (f := (· + s.toolIndexOffset)) fun a b hab => by simpa using hab
  rwa [map_map] at hmap

theorem opened_of_open (hplaced : s.layout.Placed block blocks) {i : Nat}
    (hstart : (s.tool i).started = true) (hnot : (s.tool i).stopped = false) :
    blocks (block i) = .opened .toolUse := by
  have hstatus := hplaced.tool i hstart
  rwa [show s.layout.stopped i = false from hnot] at hstatus

theorem replay_stopEvents (hplaced : s.layout.Placed block blocks) :
    ∃ after,
      replay blocks (blocksOf (stopEvents s.toolIndexOffset s.toolCalls.entries)) = some after ∧
        s.shutTools.layout.Placed block after := by
  rw [blocksOf_stopEvents, layout_shutTools]
  have hopen : ∀ k ∈ s.openBlocks, ∃ kind, blocks k = .opened kind := by
    intro k hk
    obtain ⟨i, hstart, hnot, rfl⟩ := (mem_openBlocks hplaced).mp hk
    exact ⟨.toolUse, opened_of_open hplaced hstart hnot⟩
  refine ⟨_, replay_stops s.openBlocks_nodup hopen, hplaced.stopTools ?_ ?_ ?_ ?_⟩
  · intro i hi
    rw [show (s.tool i).stopped = true from hi]
    rfl
  · intro i hi
    rcases Bool.or_eq_true_iff.mp hi with hi | hi
    · exact hplaced.stopped i hi
    · exact hi
  · intro i hnot hi
    rw [show (s.tool i).stopped = false from hnot, Bool.false_or] at hi
    exact if_pos ((mem_openBlocks hplaced).mpr ⟨i, hi, hnot, rfl⟩)
  · intro k hk
    refine if_neg fun hin => ?_
    obtain ⟨i, hstart, hnot, heq⟩ := (mem_openBlocks hplaced).mp hin
    exact hk i hnot (by rw [hstart, Bool.or_true]) heq

theorem blocksOf_endMessage (s : StreamState) : blocksOf s.endMessage = [] := by
  unfold endMessage
  split <;> rfl

theorem replay_endEvents (h : s.Regular) (hplaced : s.layout.Placed block blocks) :
    ∃ after, replay blocks (blocksOf s.endEvents) = some after ∧ AllClosed after := by
  obtain ⟨closed, hclosed, hover⟩ := replay_closeThinking h hplaced
  have htext : ∃ said, replay closed (blocksOf
        (if s.textStarted then [.contentBlockStop s.textBlockIndex] else [])) = some said ∧
      (s.textStarted = true → said s.textBlockIndex = .closed) ∧
        ∀ k, (s.textStarted = true → k ≠ s.textBlockIndex) → said k = closed k := by
    cases hstart : s.textStarted with
    | false => exact ⟨closed, rfl, nofun, fun _ _ => rfl⟩
    | true =>
      have hblock : closed s.textBlockIndex = .opened .text := hover.text hstart
      refine ⟨Function.update closed s.textBlockIndex .closed, ?_, ?_, ?_⟩
      · rw [if_pos rfl, blocksOf_stop, replay_stop hblock]
        rfl
      · exact fun _ => update_self ..
      · exact fun k hk => update_of_ne (hk rfl) ..
  obtain ⟨said, hsaid, htextClosed, hsame⟩ := htext
  have hopen : ∀ k ∈ s.openBlocks, ∃ kind, said k = .opened kind := by
    intro k hk
    obtain ⟨i, hstart, hnot, rfl⟩ := (mem_openBlocks hplaced).mp hk
    refine ⟨.toolUse, ?_⟩
    rw [hsame (block i) fun ht => hover.ne_text hstart ht]
    exact opened_of_open hover hstart hnot
  refine ⟨fun k => if k ∈ s.openBlocks then .closed else said k, ?_, ?_⟩
  · unfold endEvents
    rw [blocksOf_append, blocksOf_append, blocksOf_append, blocksOf_endMessage, append_nil,
      replay_append, replay_append, hclosed, Option.bind_some, hsaid, Option.bind_some,
      blocksOf_stopEvents]
    exact replay_stops s.openBlocks_nodup hopen
  · intro k kind hkind
    dsimp only at hkind
    split at hkind
    · cases hkind
    · rename_i hnot
      by_cases ht : s.textStarted = true ∧ k = s.textBlockIndex
      · rw [ht.2, htextClosed ht.1] at hkind
        cases hkind
      · have hk : s.textStarted = true → k ≠ s.textBlockIndex := fun hs heq => ht ⟨hs, heq⟩
        rw [hsame k hk] at hkind
        rcases hover.opened_cases hkind with ⟨-, hs, hf⟩ | ⟨hs, heq⟩ | ⟨i, hstart, hi, heq⟩
        · have htrue : (s.thinkingStarted || s.thinkingFinished) = true := by
            rw [show s.thinkingStarted = true from hs, Bool.true_or]
          rw [show (s.thinkingStarted || s.thinkingFinished) = false from hf] at htrue
          cases htrue
        · exact hk hs heq
        · exact hnot ((mem_openBlocks hplaced).mpr ⟨i, hstart, hi, heq⟩)

theorem replay_ingest (h : s.Regular) (hplaced : s.layout.Placed block blocks) {input : Input}
    (hin : s.InOrder block input) :
    ∃ next events after, s.ingest input = some (next, events) ∧
      replay blocks (blocksOf events) = some after ∧
        next.layout.Placed (s.nextBlock block input) after := by
  cases input with
  | chunk chunk =>
    have hevents : blocksOf (s.ingestOpening chunk).2 = [] := by
      unfold ingestOpening startMessage
      split <;> rfl
    have hlayout : (s.ingestOpening chunk).1.layout = s.layout := by
      rw [ingestOpening_fst]
      rfl
    refine ⟨(s.ingestOpening chunk).1, (s.ingestOpening chunk).2, blocks, rfl, ?_, ?_⟩
    · exact (congrArg (replay blocks) hevents).trans rfl
    · exact hlayout.symm ▸ hplaced
  | reasoning text =>
    obtain ⟨after, hreplay, hnext⟩ := replay_ingestReasoning hplaced hin
    exact ⟨_, _, after, rfl, hreplay, hnext⟩
  | content text =>
    obtain ⟨after, hreplay, hnext⟩ := replay_ingestContent h hplaced hin
    exact ⟨_, _, after, rfl, hreplay, hnext⟩
  | toolCall finishing call =>
    obtain ⟨closed, hclosed, hover⟩ := replay_closeThinking h hplaced
    have hinOver : s.thoughtOver.InOrder block (.toolCall finishing call) := hin
    obtain ⟨after, hreplay, hnext⟩ := replay_toolEvents h.thoughtOver hover hinOver
    refine ⟨_, _, after, (ingestToolCall_eq h finishing call).trans (if_pos hin.1), ?_, hnext⟩
    rw [blocksOf_append, replay_append, hclosed, Option.bind_some]
    exact hreplay
  | finishReason reason =>
    by_cases hreason : reason = "tool_calls"
    · obtain ⟨after, hreplay, hnext⟩ := replay_stopEvents hplaced
      refine ⟨_, _, after, (if_pos hreason).trans (changeTools_stop_of_fit
        (s := { s with stopReason := some (normalizeFinishReason reason) }) h.indexed
        (Placed.fit hplaced)), hreplay, hnext⟩
    · exact ⟨_, _, blocks, if_neg hreason, rfl, hplaced⟩

end StreamState

end DbClinic.Api
