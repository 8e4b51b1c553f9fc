import DbClinic.Api.StreamOrder

/-!
What becomes of an input out of order. Either no block accepts one of its
events, or it opens the thinking block below a tool call that is open: the
index of that call moves to a block that is not open, and the event that closes
the call is refused at the latest at the end of the stream.
-/

namespace DbClinic.Api

open Blocks List

namespace StreamState

/-- A tool call is open, and the block it would be closed at is not. -/
def Doomed (s : StreamState) (blocks : Nat → BlockStatus BlockKind) : Prop :=
  s.thinkingStarted = true ∧ ∃ m, (s.tool m).started = true ∧ (s.tool m).stopped = false ∧
    ∀ kind, blocks (m + 2) ≠ .opened kind

variable {s next : StreamState} {block : Nat → Nat} {blocks : Nat → BlockStatus BlockKind}
  {events : List StreamEvent}

theorem last_open (hplaced : s.layout.Placed block blocks) {i : Nat}
    (hstarted : (s.tool i).started = true) (hnot : (s.tool i).stopped = false) :
    ∃ m, (s.tool m).isOpen = true ∧ (s.tool (m + 1)).isOpen = false := by
  by_contra hnone
  push Not at hnone
  have hall : ∀ n, (s.tool (i + n)).isOpen = true := by
    intro n
    induction n with
    | zero => exact (isOpen_iff _).mpr ⟨hstarted, hnot⟩
    | succ n ih =>
      have hnext := hnone (i + n) ih
      exact Bool.not_eq_false _ ▸ hnext
  have hlarge := (isOpen_iff _).mp (hall (2 ^ 32))
  have hfit := (hplaced.current _ hlarge.1 hlarge.2).2
  omega

variable {input : Input} {m : Nat} {text : String} {finishing : Bool} {call : DeltaToolCall}
variable {inputs : List Input}

theorem disorder_reasoning (h : s.Regular) (hplaced : s.layout.Placed block blocks)
    (hnot : ¬ s.InOrder block (.reasoning text)) :
    replay blocks (blocksOf (s.ingestReasoning text).2) = none ∨
      ∃ after, replay blocks (blocksOf (s.ingestReasoning text).2) = some after ∧
        (s.ingestReasoning text).1.Doomed after := by
  simp only [InOrder, Classical.not_imp] at hnot
  obtain ⟨htext, hnot⟩ := hnot
  rw [ingestReasoning_eq htext]
  cases hdone : s.thinkingFinished with
  | true =>
    left
    have hstarted : s.thinkingStarted = true := h.thought hdone
    have hblock : blocks 0 = .closed := by
      have hstatus := hplaced.thinking hstarted
      rwa [show s.layout.thinkingFinished = true from hdone] at hstatus
    rw [hstarted, if_pos rfl, nil_append, blocksOf_delta]
    apply replay_delta_none
    intro kind
    rw [hblock]
    nofun
  | false =>
    have hcase : s.thinkingStarted = false ∧ (s.textStarted = false →
        ∃ e ∈ s.toolCalls.entries, e.2.started = true ∧ e.2.stopped = false) := by
      simpa [hdone] using hnot
    obtain ⟨hstarted, hopen⟩ := hcase
    rw [hstarted, if_neg Bool.false_ne_true, singleton_append, blocksOf_start,
      blocksOf_delta]
    have hlayout : s.layout.thinkingStarted = false := hstarted
    have hindex : s.layout.textBlock = 0 := if_neg (by rw [hlayout]; exact Bool.false_ne_true)
    have hoffset : s.layout.toolOffset = 1 := if_neg (by rw [hlayout]; exact Bool.false_ne_true)
    cases htextStarted : s.textStarted with
    | true =>
      left
      apply replay_start_none
      have hstatus := hplaced.text htextStarted
      rw [hindex] at hstatus
      rw [hstatus]
      nofun
    | false =>
      right
      obtain ⟨e, he, he1, he2⟩ := hopen htextStarted
      rw [← tool_of_mem he] at he1 he2
      obtain ⟨m, hm, hlast⟩ := last_open hplaced he1 he2
      have hblock : blocks 0 = .absent := by
        refine hplaced.absent 0 (fun hs => ?_) (fun ht => ?_)
          fun i hi => (hplaced.positive i hi).ne'
        · rw [show s.layout.thinkingStarted = false from hstarted] at hs
          cases hs
        · rw [show s.layout.textStarted = false from htextStarted] at ht
          cases ht
      rw [isOpen_iff] at hm
      refine ⟨Function.update blocks 0 (.opened .thinking), ?_, rfl, m, hm.1, hm.2, ?_⟩
      · rw [replay_start hblock]
        exact replay_delta (Function.update_self ..) _ []
      · intro kind hkind
        rw [Function.update_of_ne (by omega)] at hkind
        have hnext : blocks (m + 1 + s.layout.toolOffset) = .opened kind := by
          rw [hoffset]
          exact hkind
        rw [(isOpen_iff _).mpr (hplaced.opened_tool hnext)] at hlast
        cases hlast

theorem disorder_content (h : s.Regular) (hplaced : s.layout.Placed block blocks)
    (hnot : ¬ s.InOrder block (.content text)) :
    replay blocks (blocksOf (s.ingestContent text).2) = none := by
  simp only [InOrder, Classical.not_imp, not_forall, not_not] at hnot
  obtain ⟨htext, hstarted, e, he, he1, hblock⟩ := hnot
  rw [← tool_of_mem he] at he1
  obtain ⟨closed, hclosed, hover⟩ := replay_closeThinking h hplaced
  rw [ingestContent_eq htext, hstarted, if_neg Bool.false_ne_true, append_assoc,
    blocksOf_append, replay_append, hclosed, Option.bind_some, singleton_append,
    blocksOf_start]
  apply replay_start_none
  have hstatus := hover.tool e.1 he1
  rw [hblock] at hstatus
  rw [hstatus]
  split <;> nofun

theorem disorder_toolCall (h : s.Regular) (hplaced : s.layout.Placed block blocks)
    (hnot : ¬ s.InOrder block (.toolCall finishing call))
    (hingest : ingestToolCall finishing s call = some (next, events)) :
    replay blocks (blocksOf events) = none := by
  rw [ingestToolCall_eq h] at hingest
  split at hingest
  · rename_i hfit
    cases hingest
    obtain ⟨closed, hclosed, hover⟩ := replay_closeThinking h hplaced
    rw [blocksOf_append, replay_append, hclosed, Option.bind_some]
    have htidy := h.tool_tidy call.index
    by_cases hstopped : (s.tool call.index).stopped = true → call.function.arguments.getD "" = ""
    · have hopening : ¬ (s.opens call = true → ∀ e ∈ s.toolCalls.entries, e.2.started = true →
          block e.1 ≠ call.index + s.toolIndexOffset) :=
        fun hfree => hnot ⟨hfit, hstopped, hfree⟩
      simp only [Classical.not_imp, not_forall, not_not] at hopening
      obtain ⟨hopens, e, he, he1, hblock⟩ := hopening
      rw [← tool_of_mem he] at he1
      obtain ⟨hnotStarted, hname⟩ := Bool.and_eq_true_iff.mp hopens
      rw [Bool.not_eq_true'] at hnotStarted
      unfold toolEvents
      rw [if_pos hname, blocksOf_advanceEvents, hnotStarted, if_neg Bool.false_ne_true,
        append_assoc, singleton_append]
      apply replay_start_none
      have hstatus := hover.tool e.1 he1
      rw [hblock] at hstatus
      rw [hstatus]
      split <;> nofun
    · rw [Classical.not_imp] at hstopped
      obtain ⟨hstopped, harguments⟩ := hstopped
      have hstarted := htidy.stopped hstopped
      have hname : ((s.tool call.index).apply call).name.isSome = true := by
        have hold := htidy.started
        rw [hstarted] at hold
        unfold ToolCallState.apply
        cases hcall : call.function.name with
        | none => exact hold.symm
        | some name => rfl
      have hfresh : (s.tool call.index).fresh call = call.function.arguments.getD "" :=
        if_pos hstarted
      unfold toolEvents
      rw [if_pos hname, blocksOf_advanceEvents, hstarted, if_pos rfl, nil_append, hfresh,
        if_neg harguments, singleton_append]
      apply replay_delta_none
      intro kind hopen
      have hcontra := (hover.opened_tool hopen).2
      rw [show s.thoughtOver.layout.stopped call.index = true from hstopped] at hcontra
      cases hcontra
  · cases hingest

theorem disorder (h : s.Regular) (hplaced : s.layout.Placed block blocks)
    (hnot : ¬ s.InOrder block input) (hingest : s.ingest input = some (next, events)) :
    replay blocks (blocksOf events) = none ∨
      ∃ after, replay blocks (blocksOf events) = some after ∧ next.Doomed after := by
  cases input with
  | chunk chunk => exact absurd trivial hnot
  | reasoning text =>
    have hstep : s.ingestReasoning text = (next, events) := Option.some.inj hingest
    have hcases := disorder_reasoning h hplaced hnot
    rwa [hstep] at hcases
  | content text =>
    have hstep : s.ingestContent text = (next, events) := Option.some.inj hingest
    have hnone := disorder_content h hplaced hnot
    rw [hstep] at hnone
    exact .inl hnone
  | toolCall finishing call => exact .inl (disorder_toolCall h hplaced hnot hingest)
  | finishReason reason => exact absurd trivial hnot

/-- What an input does to an open tool call once the thinking block was opened. -/
structure KeepsOpen (next : StreamState) (events : List StreamEvent) (m : Nat) : Prop where
  thinking : next.thinkingStarted = true
  started : (next.tool m).started = true
  noStart : ∀ kind, .start (m + 2) kind ∉ blocksOf events
  stops : (next.tool m).stopped = true → .stop (m + 2) ∈ blocksOf events

theorem closeThinking_blocks (s : StreamState) :
    blocksOf s.closeThinking.2 = [] ∨ blocksOf s.closeThinking.2 = [.stop 0] := by
  unfold closeThinking
  split
  · exact .inr rfl
  · exact .inl rfl

theorem keepsOpen_toolCall (h : s.Regular) (hthinking : s.thinkingStarted = true)
    (hstarted : (s.tool m).started = true) (hnot : (s.tool m).stopped = false)
    (hingest : ingestToolCall finishing s call = some (next, events)) :
    KeepsOpen next events m := by
  have hoffset : s.toolIndexOffset = 2 := if_pos hthinking
  rw [ingestToolCall_eq h] at hingest
  split at hingest
  · cases hingest
    have hclose (e : BlockEvent Nat BlockKind) (he : e ∈ blocksOf s.closeThinking.2) :
        e = .stop 0 := by
      rcases closeThinking_blocks s with hnil | hone
      · rw [hnil] at he
        cases he
      · rw [hone] at he
        exact mem_singleton.mp he
    have htool : (s.thoughtOver.setTool call.index (s.toolAfter finishing call)).tool m =
        if m = call.index then s.toolAfter finishing call else s.tool m := by
      rw [tool_setTool, Function.update_apply]
      rfl
    refine ⟨hthinking, ?_, ?_, ?_⟩
    · rw [htool]
      split
      · rename_i heq
        subst heq
        unfold toolAfter
        split
        · rfl
        · exact hstarted
      · exact hstarted
    · intro kind hmem
      rw [blocksOf_append, mem_append] at hmem
      rcases hmem with hmem | hmem
      · cases hclose _ hmem
      · unfold toolEvents at hmem
        split at hmem
        · rw [blocksOf_advanceEvents, hoffset] at hmem
          cases hold : (s.tool call.index).started with
          | true => split at hmem <;> split at hmem <;> simp at hmem
          | false =>
            have hne : m ≠ call.index := by
              rintro rfl
              rw [hold] at hstarted
              cases hstarted
            split at hmem <;> split at hmem <;> simp [hne] at hmem
        · cases hmem
    · intro hstopped
      rw [htool] at hstopped
      split at hstopped
      · rename_i heq
        subst heq
        unfold toolAfter at hstopped
        unfold toolEvents
        split at hstopped
        · rename_i hname
          have hfinishing : (finishing && !(s.tool call.index).stopped) = true := by
            change ((s.tool call.index).stopped || finishing) = true at hstopped
            rw [hnot, Bool.false_or] at hstopped
            rw [hstopped, hnot]
            rfl
          rw [if_pos hname, blocksOf_append, blocksOf_advanceEvents, hfinishing, if_pos rfl,
            hoffset]
          simp
        · change (s.tool call.index).stopped = true at hstopped
          rw [hnot] at hstopped
          cases hstopped
      · rw [hnot] at hstopped
        cases hstopped
  · cases hingest

theorem stop_mem_stopEvents (hstarted : (s.tool m).started = true)
    (hnot : (s.tool m).stopped = false) (offset : Nat) :
    .stop (m + offset) ∈ blocksOf (stopEvents offset s.toolCalls.entries) := by
  rw [blocksOf_stopEvents, map_map]
  exact mem_map.mpr ⟨(m, s.tool m), mem_filter.mpr
    ⟨mem_of_tool_started hstarted, (isOpen_iff _).mpr ⟨hstarted, hnot⟩⟩, rfl⟩

theorem start_not_mem_stopEvents (offset i : Nat) (kind : BlockKind)
    (entries : List (Nat × ToolCallState)) :
    .start i kind ∉ blocksOf (stopEvents offset entries) := by
  rw [blocksOf_stopEvents]
  intro hmem
  obtain ⟨k, -, heq⟩ := mem_map.mp hmem
  cases heq

theorem keepsOpen_ingest (h : s.Regular) (hthinking : s.thinkingStarted = true)
    (hstarted : (s.tool m).started = true) (hnot : (s.tool m).stopped = false)
    (hingest : s.ingest input = some (next, events)) : KeepsOpen next events m := by
  have hstill {t : ToolCallState} (heq : t = s.tool m) (hs : t.stopped = true) {P : Prop} : P := by
    rw [heq, hnot] at hs
    cases hs
  cases input with
  | chunk chunk =>
    have hstep : s.ingestOpening chunk = (next, events) := Option.some.inj hingest
    have hnext := ingestOpening_fst (s := s) chunk
    have hevents : blocksOf (s.ingestOpening chunk).2 = [] := by
      unfold ingestOpening startMessage
      split <;> rfl
    rw [hstep] at hnext hevents
    dsimp only at hnext hevents
    subst hnext
    refine ⟨hthinking, hstarted, ?_, fun hs => hstill rfl hs⟩
    rw [hevents]
    exact fun _ => not_mem_nil
  | reasoning text =>
    have hstep : s.ingestReasoning text = (next, events) := Option.some.inj hingest
    by_cases htext : text = ""
    · subst htext
      cases hstep
      exact ⟨hthinking, hstarted, fun _ => not_mem_nil, fun hs => hstill rfl hs⟩
    · rw [ingestReasoning_eq htext, hthinking, if_pos rfl, nil_append] at hstep
      cases hstep
      refine ⟨rfl, hstarted, fun kind hmem => ?_, fun hs => hstill rfl hs⟩
      simp at hmem
  | content text =>
    have hstep : s.ingestContent text = (next, events) := Option.some.inj hingest
    by_cases htext : text = ""
    · subst htext
      cases hstep
      exact ⟨hthinking, hstarted, fun _ => not_mem_nil, fun hs => hstill rfl hs⟩
    · rw [ingestContent_eq htext] at hstep
      cases hstep
      have hindex : s.textBlockIndex = 1 := if_pos hthinking
      refine ⟨hthinking, hstarted, fun kind hmem => ?_, fun hs => hstill rfl hs⟩
      rw [hindex, blocksOf_append, blocksOf_append] at hmem
      rcases closeThinking_blocks s with hclose | hclose <;> rw [hclose] at hmem <;>
        split at hmem <;> simp at hmem
  | toolCall finishing call => exact keepsOpen_toolCall h hthinking hstarted hnot hingest
  | finishReason reason =>
    rcases ingestFinishReason_cases h hingest with ⟨-, heq⟩ | ⟨-, heq⟩
    · cases heq
      exact ⟨hthinking, hstarted, fun _ => not_mem_nil, fun hs => hstill rfl hs⟩
    · cases heq
      have htool : ({ s.shutTools with
          stopReason := some (normalizeFinishReason reason) } : StreamState).tool m =
            (s.tool m).shut := tool_shutTools m
      have hoffset : s.toolIndexOffset = 2 := if_pos hthinking
      refine ⟨hthinking, ?_, fun kind => start_not_mem_stopEvents _ _ kind _, fun _ => ?_⟩
      · rw [htool]
        exact hstarted
      · have hmem := stop_mem_stopEvents hstarted hnot s.toolIndexOffset
        rwa [hoffset] at hmem ⊢

theorem doomed_ingest (h : s.Regular) (hdoomed : s.Doomed blocks)
    (hingest : s.ingest input = some (next, events)) :
    replay blocks (blocksOf events) = none ∨
      ∃ after, replay blocks (blocksOf events) = some after ∧ next.Doomed after := by
  obtain ⟨hthinking, m, hstarted, hnot, hblock⟩ := hdoomed
  have hkeeps := keepsOpen_ingest h hthinking hstarted hnot hingest
  cases hreplay : replay blocks (blocksOf events) with
  | none => exact .inl rfl
  | some after =>
    obtain ⟨hsame, hindex⟩ := replay_stuck hblock hkeeps.noStart hreplay
    refine .inr ⟨after, rfl, hkeeps.thinking, m, hkeeps.started, ?_, ?_⟩
    · cases hstopped : (next.tool m).stopped with
      | false => rfl
      | true => exact absurd rfl (hindex _ (hkeeps.stops hstopped))
    · rw [hsame]
      exact hblock

theorem doomed_end (hdoomed : s.Doomed blocks) : replay blocks (blocksOf s.endEvents) = none := by
  obtain ⟨hthinking, m, hstarted, hnot, hblock⟩ := hdoomed
  have hoffset : s.toolIndexOffset = 2 := if_pos hthinking
  have hstop : .stop (m + 2) ∈ blocksOf s.endEvents := by
    have hmem := stop_mem_stopEvents hstarted hnot s.toolIndexOffset
    rw [hoffset] at hmem
    unfold endEvents
    rw [hoffset, blocksOf_append, blocksOf_append]
    exact mem_append_left _ (mem_append_right _ hmem)
  have hstart : ∀ kind, .start (m + 2) kind ∉ blocksOf s.endEvents := by
    intro kind hmem
    unfold endEvents at hmem
    rw [blocksOf_append, blocksOf_append, blocksOf_append, blocksOf_endMessage, append_nil,
      mem_append, mem_append] at hmem
    rcases hmem with (hmem | hmem) | hmem
    · rcases closeThinking_blocks s with hclose | hclose <;> rw [hclose] at hmem <;> simp at hmem
    · split at hmem <;> simp at hmem
    · exact start_not_mem_stopEvents _ _ _ _ hmem
  cases hreplay : replay blocks (blocksOf s.endEvents) with
  | none => rfl
  | some after => exact absurd rfl ((replay_stuck hblock hstart hreplay).2 _ hstop)

theorem ingestAll_cons {rest : List Input}
    (hingest : s.ingestAll (input :: rest) = some (next, events)) :
    ∃ middle first others, s.ingest input = some (middle, first) ∧
      middle.ingestAll rest = some (next, others) ∧ events = first ++ others := by
  simp only [ingestAll, Option.bind_eq_bind, Option.bind_eq_some_iff] at hingest
  obtain ⟨⟨middle, first⟩, hfirst, ⟨last, others⟩, hothers, heq⟩ := hingest
  cases heq
  exact ⟨middle, first, others, hfirst, hothers, rfl⟩

theorem doomed_run (h : s.Regular) (hdoomed : s.Doomed blocks)
    (hingest : s.ingestAll inputs = some (next, events)) :
    replay blocks (blocksOf (events ++ next.endEvents)) = none := by
  induction inputs generalizing s blocks events with
  | nil =>
    cases hingest
    exact doomed_end hdoomed
  | cons input rest ih =>
    obtain ⟨middle, first, others, hfirst, hrest, rfl⟩ := ingestAll_cons hingest
    rw [append_assoc, blocksOf_append]
    rcases doomed_ingest h hdoomed hfirst with hnone | ⟨after, hafter, hstill⟩
    · exact replay_append_none hnone _
    · rw [replay_append, hafter, Option.bind_some]
      exact ih (h.ingest hfirst) hstill hrest

theorem disorder_run (h : s.Regular) (hplaced : s.layout.Placed block blocks)
    (hnot : ¬ s.Orderly block inputs) (hingest : s.ingestAll inputs = some (next, events)) :
    replay blocks (blocksOf (events ++ next.endEvents)) = none := by
  induction inputs generalizing s block blocks events with
  | nil => exact absurd trivial hnot
  | cons input rest ih =>
    obtain ⟨middle, first, others, hfirst, hrest, rfl⟩ := ingestAll_cons hingest
    rw [append_assoc, blocksOf_append]
    by_cases hin : s.InOrder block input
    · obtain ⟨middle', first', after, hfirst', hreplay, hnext⟩ := replay_ingest h hplaced hin
      rw [hfirst] at hfirst'
      cases hfirst'
      have hrestNot : ¬ middle.Orderly (s.nextBlock block input) rest := by
        intro horderly
        refine hnot ⟨hin, fun next events heq => ?_⟩
        rw [hfirst] at heq
        cases heq
        exact horderly
      rw [replay_append, hreplay, Option.bind_some]
      exact ih (h.ingest hfirst) hnext hrestNot hrest
    · rcases disorder h hplaced hin hfirst with hnone | ⟨after, hafter, hdoomed⟩
      · exact replay_append_none hnone _
      · rw [replay_append, hafter, Option.bind_some]
        exact doomed_run (h.ingest hfirst) hdoomed hrest

end StreamState

end DbClinic.Api
