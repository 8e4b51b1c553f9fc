import DbClinic.Api.RealClient

/-!
The collection of a stream, event by event: what an event appends, read as tool
uses, as thinking and as text, is what the assembly of its pieces completes. The
message loses nothing exactly when every block is stopped.
-/

namespace DbClinic.RealClient

open DbClinic.Api DbClinic.Runtime DbClinic.Assembly List

section Lists

variable {α β : Type} (pick : α → Option β) (textOf : α → String)

theorem joined_append (xs ys : List α) :
    joined textOf (xs ++ ys) = joined textOf xs ++ joined textOf ys := by
  induction xs with
  | nil => exact (String.empty_append).symm
  | cons x xs ih =>
    change textOf x ++ joined textOf (xs ++ ys) = textOf x ++ joined textOf xs ++ _
    rw [ih, String.append_assoc]

theorem placed_append (text : String) (xs ys : List α) :
    placed pick textOf text (xs ++ ys) =
      placed pick textOf text xs ++ placed pick textOf (text ++ joined textOf xs) ys := by
  induction xs generalizing text with
  | nil =>
    change placed pick textOf text ys = placed pick textOf (text ++ "") ys
    rw [String.append_empty]
  | cons x xs ih =>
    simp only [cons_append, placed]
    rw [ih, append_assoc, String.append_assoc]
    rfl

end Lists

def textOfEvent : AssistantEvent → String
  | .textDelta text => text
  | _ => ""

def blockOfEvent : AssistantEvent → Option ContentBlock
  | .thinking thinking signature => some (.thinking thinking signature)
  | .toolUse id name input => some (.toolUse id name input)
  | _ => none

def toolOfEvent (event : AssistantEvent) : Option ToolUse := (blockOfEvent event).bind toolOfBlock

def thinkingOfEvent (event : AssistantEvent) : Option (String × Option String) :=
  (blockOfEvent event).bind thinkingOfBlock

/-- What the collector appends, as the pieces have it. The pieces are given for
the text before them. -/
structure Adds (c c' : Collector) (new : List AssistantEvent) (text : String)
    (tools : String → List ToolPiece) (thinking : String → List ThinkingPiece) : Prop where
  events : c'.events = c.events ++ new
  joins : joined textOfEvent new = text
  tools : ∀ before, c'.pendingTools = run extendTool c.pendingTools (tools before) ∧
    placed toolOfEvent textOfEvent before new = completed extendTool c.pendingTools (tools before)
  thinking : ∀ before,
    c'.pendingThinking = run extendThinking c.pendingThinking (thinking before) ∧
    placed thinkingOfEvent textOfEvent before new =
      completed extendThinking c.pendingThinking (thinking before)

namespace Adds

variable {c c' c'' : Collector} {new new' : List AssistantEvent} {text text' : String}
variable {tools tools' : String → List ToolPiece} {thinking thinking' : String → List ThinkingPiece}

theorem refl (c : Collector) : Adds c c [] "" (fun _ => []) (fun _ => []) where
  events := (append_nil _).symm
  joins := rfl
  tools _ := ⟨rfl, rfl⟩
  thinking _ := ⟨rfl, rfl⟩

theorem trans (h : Adds c c' new text tools thinking) (h' : Adds c' c'' new' text' tools' thinking') :
    Adds c c'' (new ++ new') (text ++ text') (fun before => tools before ++ tools' (before ++ text))
      (fun before => thinking before ++ thinking' (before ++ text)) where
  events := by rw [h'.events, h.events, append_assoc]
  joins := by rw [joined_append, h.joins, h'.joins]
  tools before := by
    obtain ⟨hpend, hplaced⟩ := h.tools before
    obtain ⟨hpend', hplaced'⟩ := h'.tools (before ++ text)
    constructor
    · rw [hpend', hpend, run_append]
    · rw [placed_append, completed_append, hplaced, h.joins, hplaced', hpend]
  thinking before := by
    obtain ⟨hpend, hplaced⟩ := h.thinking before
    obtain ⟨hpend', hplaced'⟩ := h'.thinking (before ++ text)
    constructor
    · rw [hpend', hpend, run_append]
    · rw [placed_append, completed_append, hplaced, h.joins, hplaced', hpend]

end Adds

section Handle

variable (toStr : Value → String) (c : Collector)

theorem adds_aside (c' : Collector) (event : AssistantEvent) (hevents : c'.events = c.events ++ [event])
    (htools : c'.pendingTools = c.pendingTools) (hthinking : c'.pendingThinking = c.pendingThinking)
    (htext : textOfEvent event = "") (hblock : blockOfEvent event = none) :
    Adds c c' [event] "" (fun _ => []) (fun _ => []) where
  events := hevents
  joins := by simp [joined, htext]
  tools _ := ⟨htools, by simp [placed, toolOfEvent, hblock, completed]⟩
  thinking _ := ⟨hthinking, by simp [placed, thinkingOfEvent, hblock, completed]⟩

theorem adds_pushText (text : String) :
    ∃ new, Adds c (c.pushText text) new text (fun _ => []) (fun _ => []) := by
  unfold Collector.pushText
  by_cases hempty : text = ""
  · subst hempty
    exact ⟨[], Adds.refl c⟩
  · rw [if_neg hempty]
    refine ⟨[.textDelta text], rfl, ?_, fun _ => ⟨rfl, rfl⟩, fun _ => ⟨rfl, rfl⟩⟩
    simp [joined, textOfEvent]

theorem adds_pushOutputBlock (blockIndex : Nat) (block : OutputContentBlock) :
    ∃ new, Adds c (c.pushOutputBlock toStr blockIndex block) new (blockText block)
      (fun _ => toolStart toStr blockIndex block) (fun _ => thinkingStart blockIndex block) := by
  cases block with
  | text text => exact adds_pushText c text
  | toolUse id name input =>
    exact ⟨[], (append_nil _).symm, rfl, fun _ => ⟨rfl, rfl⟩, fun _ => ⟨rfl, rfl⟩⟩
  | thinking thinking signature =>
    exact ⟨[], (append_nil _).symm, rfl, fun _ => ⟨rfl, rfl⟩, fun _ => ⟨rfl, rfl⟩⟩
  | redactedThinking data => exact ⟨[], Adds.refl c⟩

theorem adds_content (content : List OutputContentBlock) :
    ∃ new, Adds c (content.foldl (fun c block => c.pushOutputBlock toStr 0 block) c) new
      (content.foldr (fun block text => blockText block ++ text) "")
      (fun _ => content.flatMap (toolStart toStr 0))
      (fun _ => content.flatMap (thinkingStart 0)) := by
  induction content generalizing c with
  | nil => exact ⟨[], Adds.refl c⟩
  | cons block content ih =>
    obtain ⟨new, hblock⟩ := adds_pushOutputBlock toStr c 0 block
    obtain ⟨new', hrest⟩ := ih (c.pushOutputBlock toStr 0 block)
    exact ⟨new ++ new', hblock.trans hrest⟩

theorem adds_delta (index : Nat) (delta : ContentBlockDelta) :
    ∃ new, Adds c (c.handleDelta index delta) new (eventText (.contentBlockDelta index delta))
      (fun before => toolPieces toStr before (.contentBlockDelta index delta))
      (fun before => thinkingPieces before (.contentBlockDelta index delta)) := by
  cases delta with
  | textDelta text => exact adds_pushText c text
  | inputJsonDelta partialJson =>
    refine ⟨[], ?_, rfl, fun _ => ?_, fun _ => ?_⟩
    · simp only [Collector.handleDelta]
      cases c.pendingTools.get index <;> exact (append_nil _).symm
    · simp only [Collector.handleDelta, toolPieces, run, completed, step]
      cases c.pendingTools.get index <;> exact ⟨rfl, rfl⟩
    · simp only [Collector.handleDelta]
      cases c.pendingTools.get index <;> exact ⟨rfl, rfl⟩
  | thinkingDelta thinking =>
    refine ⟨[], ?_, rfl, fun _ => ?_, fun _ => ?_⟩
    · simp only [Collector.handleDelta]
      cases c.pendingThinking.get index <;> exact (append_nil _).symm
    · simp only [Collector.handleDelta]
      cases c.pendingThinking.get index <;> exact ⟨rfl, rfl⟩
    · simp only [Collector.handleDelta, thinkingPieces, run, completed, step]
      cases c.pendingThinking.get index <;> exact ⟨rfl, rfl⟩
  | signatureDelta signature =>
    refine ⟨[], ?_, rfl, fun _ => ?_, fun _ => ?_⟩
    · simp only [Collector.handleDelta]
      cases c.pendingThinking.get index <;> exact (append_nil _).symm
    · simp only [Collector.handleDelta]
      cases c.pendingThinking.get index <;> exact ⟨rfl, rfl⟩
    · simp only [Collector.handleDelta, thinkingPieces, run, completed, step]
      cases c.pendingThinking.get index <;> exact ⟨rfl, rfl⟩

theorem adds_stop (index : Nat) :
    ∃ new, Adds c (c.handle toStr (.contentBlockStop index)) new ""
      (fun before => [.stop index before]) (fun before => [.stop index before]) := by
  refine ⟨((c.pendingThinking.get index).map Collector.thinkingEvent).toList ++
    ((c.pendingTools.get index).map Collector.toolEvent).toList, ?_, ?_, fun before => ?_,
    fun before => ?_⟩
  · simp only [Collector.handle, append_assoc]
  · cases c.pendingThinking.get index <;> cases c.pendingTools.get index <;> rfl
  · refine ⟨rfl, ?_⟩
    simp only [completed, step, append_nil]
    cases c.pendingThinking.get index <;> cases c.pendingTools.get index <;>
      simp [placed, Collector.thinkingEvent, Collector.toolEvent, toolOfEvent, blockOfEvent,
        toolOfBlock, textOfEvent]
  · refine ⟨rfl, ?_⟩
    simp only [completed, step, append_nil]
    cases c.pendingThinking.get index <;> cases c.pendingTools.get index <;>
      simp [placed, Collector.thinkingEvent, Collector.toolEvent, thinkingOfEvent, blockOfEvent,
        thinkingOfBlock, textOfEvent]

theorem adds_handle (event : StreamEvent) :
    ∃ new, Adds c (c.handle toStr event) new (eventText event)
      (fun before => toolPieces toStr before event) (fun before => thinkingPieces before event) := by
  cases event with
  | messageStart message => exact adds_content toStr c message.content
  | messageDelta stopReason stopSequence usage =>
    exact ⟨_, adds_aside c _ (.usage (Collector.tokenUsage usage)) rfl rfl rfl rfl rfl⟩
  | contentBlockStart index contentBlock => exact adds_pushOutputBlock toStr c index contentBlock
  | contentBlockDelta index delta => exact adds_delta toStr c index delta
  | contentBlockStop index => exact adds_stop toStr c index
  | messageStop => exact ⟨_, adds_aside c _ .messageStop rfl rfl rfl rfl rfl⟩

theorem adds_foldl (events : List StreamEvent) :
    ∃ new, Adds c (events.foldl (Collector.handle toStr) c) new (streamText events)
      (fun before => piecesFrom (toolPieces toStr) before events)
      (fun before => piecesFrom thinkingPieces before events) := by
  induction events generalizing c with
  | nil => exact ⟨[], Adds.refl c⟩
  | cons event events ih =>
    obtain ⟨new, hevent⟩ := adds_handle toStr c event
    obtain ⟨new', hrest⟩ := ih (c.handle toStr event)
    exact ⟨new ++ new', hevent.trans hrest⟩

end Handle

theorem collect_spec (toStr : Value → String) (events : List StreamEvent) :
    joined textOfEvent (collect toStr events).events = streamText events ∧
      placed toolOfEvent textOfEvent "" (collect toStr events).events =
        completed extendTool KeyMap.empty (piecesFrom (toolPieces toStr) "" events) ∧
      placed thinkingOfEvent textOfEvent "" (collect toStr events).events =
        completed extendThinking KeyMap.empty (piecesFrom thinkingPieces "" events) := by
  obtain ⟨new, hadds⟩ := adds_foldl toStr .new events
  have hevents : (collect toStr events).events = new := hadds.events
  rw [hevents]
  exact ⟨hadds.joins, (hadds.tools "").2, (hadds.thinking "").2⟩

section Empty

variable {α β : Type} {pick : α → Option β} {textOf : α → String}

theorem joined_eq_empty_iff (as : List α) : joined textOf as = "" ↔ ∀ a ∈ as, textOf a = "" := by
  induction as with
  | nil => simp [joined]
  | cons a as ih =>
    change textOf a ++ joined textOf as = "" ↔ _
    rw [forall_mem_cons, ← ih]
    exact String.append_eq_empty_iff

theorem placed_eq_nil_iff (text : String) (as : List α) :
    placed pick textOf text as = [] ↔ ∀ a ∈ as, pick a = none := by
  induction as generalizing text with
  | nil => simp [placed]
  | cons a as ih =>
    rw [placed, append_eq_nil_iff, ih, forall_mem_cons]
    cases pick a <;> simp

end Empty

theorem blockOfEvent_eq_none_iff (event : AssistantEvent) :
    blockOfEvent event = none ↔ toolOfEvent event = none ∧ thinkingOfEvent event = none := by
  cases event <;> simp [blockOfEvent, toolOfEvent, thinkingOfEvent, toolOfBlock, thinkingOfBlock]

theorem any_isContent_iff (events : List AssistantEvent) :
    events.any Collector.isContent = true ↔
      joined textOfEvent events ≠ "" ∨ placed toolOfEvent textOfEvent "" events ≠ [] := by
  rw [Ne, Ne, joined_eq_empty_iff, placed_eq_nil_iff, any_eq_true]
  constructor
  · rintro ⟨event, hmem, hcontent⟩
    cases event with
    | textDelta text =>
      left
      intro hall
      have hempty : text = "" := hall _ hmem
      subst hempty
      cases hcontent
    | toolUse id name input =>
      right
      intro hall
      cases hall _ hmem
    | thinking thinking signature => cases hcontent
    | usage value => cases hcontent
    | promptCache event => cases hcontent
    | messageStop => cases hcontent
  · intro hsome
    by_contra hnone
    have hnot : ∀ event ∈ events, Collector.isContent event = false := by
      intro event hmem
      by_contra hcontent
      exact hnone ⟨event, hmem, by simpa using hcontent⟩
    rcases hsome with htext | htool
    · apply htext
      intro event hmem
      have hcontent := hnot event hmem
      cases event with
      | textDelta text => simpa [Collector.isContent, textOfEvent] using hcontent
      | _ => rfl
    · apply htool
      intro event hmem
      have hcontent := hnot event hmem
      cases event with
      | toolUse id name input => cases hcontent
      | _ => rfl

/-- The stop was seen, and is among the events, when the condition holds. -/
def StopSeen (c : Collector) (p : Prop) : Prop :=
  (c.sawStop = true ↔ p) ∧ (.messageStop ∈ c.events ↔ p)

namespace StopSeen

variable {c : Collector} {p : Prop}

theorem pushText (h : StopSeen c p) (text : String) : StopSeen (c.pushText text) p := by
  unfold Collector.pushText
  split
  · exact h
  · refine ⟨h.1, ?_⟩
    simp only [Collector.push, Collector.emit, mem_append, mem_singleton, reduceCtorEq,
      or_false]
    exact h.2

theorem pushOutputBlock (h : StopSeen c p) (toStr : Value → String) (blockIndex : Nat)
    (block : OutputContentBlock) : StopSeen (c.pushOutputBlock toStr blockIndex block) p := by
  cases block with
  | text text => exact h.pushText text
  | toolUse id name input => exact h
  | thinking thinking signature => exact h
  | redactedThinking data => exact h

theorem handleDelta (h : StopSeen c p) (index : Nat) (delta : ContentBlockDelta) :
    StopSeen (c.handleDelta index delta) p := by
  cases delta with
  | textDelta text => exact h.pushText text
  | inputJsonDelta partialJson =>
    simp only [Collector.handleDelta]
    split <;> exact h
  | thinkingDelta thinking =>
    simp only [Collector.handleDelta]
    split <;> exact h
  | signatureDelta signature =>
    simp only [Collector.handleDelta]
    split <;> exact h

theorem handle (h : StopSeen c p) (toStr : Value → String) (event : StreamEvent) :
    StopSeen (c.handle toStr event) (p ∨ event = .messageStop) := by
  cases event with
  | messageStart message =>
    simp only [reduceCtorEq, or_false, Collector.handle]
    induction message.content generalizing c with
    | nil => exact h
    | cons block content ih => exact ih (h.pushOutputBlock toStr 0 block)
  | messageDelta stopReason stopSequence usage =>
    simp only [reduceCtorEq, or_false]
    refine ⟨h.1, ?_⟩
    simp only [Collector.handle, Collector.push, Collector.emit, mem_append,
      mem_singleton, reduceCtorEq, or_false]
    exact h.2
  | contentBlockStart index contentBlock =>
    simp only [reduceCtorEq, or_false]
    exact h.pushOutputBlock toStr index contentBlock
  | contentBlockDelta index delta =>
    simp only [reduceCtorEq, or_false]
    exact h.handleDelta index delta
  | contentBlockStop index =>
    simp only [reduceCtorEq, or_false]
    refine ⟨h.1, ?_⟩
    simp only [Collector.handle, mem_append, Option.mem_toList, Option.map_eq_some_iff,
      Collector.thinkingEvent, Collector.toolEvent, reduceCtorEq, and_false, exists_false,
      or_false]
    exact h.2
  | messageStop =>
    simp only [or_true]
    exact ⟨iff_of_true rfl trivial, iff_of_true (by simp [Collector.handle, Collector.push]) trivial⟩

end StopSeen

theorem collect_stopSeen (toStr : Value → String) (events : List StreamEvent) :
    StopSeen (collect toStr events) (.messageStop ∈ events) := by
  have hfold : ∀ c p, StopSeen c p → StopSeen (events.foldl (Collector.handle toStr) c)
      (p ∨ .messageStop ∈ events) := by
    induction events with
    | nil =>
      intro c p h
      simpa using h
    | cons event events ih =>
      intro c p h
      have hrest := ih _ _ (h.handle toStr event)
      rw [or_assoc] at hrest
      simpa [eq_comm] using hrest
  have hstart : StopSeen .new False := ⟨by simp [Collector.new], by simp [Collector.new]⟩
  have hrun := hfold .new False hstart
  rw [false_or] at hrun
  exact hrun

section Build

variable {β : Type} (pick : ContentBlock → Option β)

theorem joined_flush (b : MessageBuilder) :
    joined textOfBlock b.flushTextBlock.blocks = joined textOfBlock b.blocks ++ b.text := by
  unfold MessageBuilder.flushTextBlock
  split
  · rename_i hempty
    rw [hempty, String.append_empty]
  · rw [joined_append]
    simp [joined, textOfBlock]

theorem placed_flush (hpick : ∀ text, pick (.text text) = none) (b : MessageBuilder) :
    placed pick textOfBlock "" b.flushTextBlock.blocks = placed pick textOfBlock "" b.blocks := by
  unfold MessageBuilder.flushTextBlock
  split
  · rfl
  · rw [placed_append]
    simp [placed, hpick]

theorem flush_text (b : MessageBuilder) : b.flushTextBlock.text = "" := by
  unfold MessageBuilder.flushTextBlock
  split
  · assumption
  · rfl

theorem flush_nil_iff (b : MessageBuilder) :
    b.flushTextBlock.blocks = [] ↔ b.blocks = [] ∧ b.text = "" := by
  unfold MessageBuilder.flushTextBlock
  split
  · rename_i hempty
    simp [hempty]
  · rename_i htext
    simp [htext]

theorem push_spec (hpick : ∀ text, pick (.text text) = none) (b : MessageBuilder)
    (event : AssistantEvent) :
    joined textOfBlock (b.push event).blocks ++ (b.push event).text =
        joined textOfBlock b.blocks ++ b.text ++ textOfEvent event ∧
      placed pick textOfBlock "" (b.push event).blocks = placed pick textOfBlock "" b.blocks ++
        (((blockOfEvent event).bind pick).map
          fun found => (found, joined textOfBlock b.blocks ++ b.text)).toList := by
  cases event with
  | thinking thinking signature =>
    constructor
    · change joined textOfBlock (b.flushTextBlock.blocks ++ [_]) ++ b.flushTextBlock.text = _
      rw [joined_append, joined_flush, flush_text, String.append_empty]
      rfl
    · change placed pick textOfBlock "" (b.flushTextBlock.blocks ++ [_]) = _
      rw [placed_append, placed_flush pick hpick, joined_flush, String.empty_append]
      simp [placed, blockOfEvent]
  | toolUse id name input =>
    constructor
    · change joined textOfBlock (b.flushTextBlock.blocks ++ [_]) ++ b.flushTextBlock.text = _
      rw [joined_append, joined_flush, flush_text, String.append_empty]
      rfl
    · change placed pick textOfBlock "" (b.flushTextBlock.blocks ++ [_]) = _
      rw [placed_append, placed_flush pick hpick, joined_flush, String.empty_append]
      simp [placed, blockOfEvent]
  | textDelta text =>
    constructor
    · change joined textOfBlock b.blocks ++ (b.text ++ text) = _
      rw [← String.append_assoc]
      rfl
    · simp [MessageBuilder.push, blockOfEvent]
  | usage value => simp [MessageBuilder.push, textOfEvent, blockOfEvent]
  | promptCache event => simp [MessageBuilder.push, textOfEvent, blockOfEvent]
  | messageStop => simp [MessageBuilder.push, textOfEvent, blockOfEvent]

theorem push_finished (b : MessageBuilder) (event : AssistantEvent) :
    (b.push event).finished = true ↔ b.finished = true ∨ event = .messageStop := by
  have hflush : b.flushTextBlock.finished = b.finished := by
    unfold MessageBuilder.flushTextBlock
    split <;> rfl
  cases event <;> simp [MessageBuilder.push, hflush]

theorem push_nil_iff (b : MessageBuilder) (event : AssistantEvent) :
    ((b.push event).blocks = [] ∧ (b.push event).text = "") ↔
      (b.blocks = [] ∧ b.text = "") ∧ textOfEvent event = "" ∧ blockOfEvent event = none := by
  cases event with
  | textDelta text =>
    change b.blocks = [] ∧ b.text ++ text = "" ↔ (b.blocks = [] ∧ b.text = "") ∧ text = "" ∧ _
    rw [String.append_eq_empty_iff, and_assoc]
    simp [blockOfEvent]
  | _ => simp [MessageBuilder.push, textOfEvent, blockOfEvent]

theorem foldl_push_spec (hpick : ∀ text, pick (.text text) = none) (events : List AssistantEvent)
    (b : MessageBuilder) :
    joined textOfBlock (events.foldl MessageBuilder.push b).blocks ++
          (events.foldl MessageBuilder.push b).text =
        joined textOfBlock b.blocks ++ b.text ++ joined textOfEvent events ∧
      placed pick textOfBlock "" (events.foldl MessageBuilder.push b).blocks =
        placed pick textOfBlock "" b.blocks ++ placed (fun event => (blockOfEvent event).bind pick)
          textOfEvent (joined textOfBlock b.blocks ++ b.text) events := by
  induction events generalizing b with
  | nil => exact ⟨(String.append_empty).symm, (append_nil _).symm⟩
  | cons event events ih =>
    obtain ⟨hjoined, hplaced⟩ := push_spec pick hpick b event
    obtain ⟨hjoined', hplaced'⟩ := ih (b.push event)
    rw [hjoined] at hjoined' hplaced'
    rw [hplaced, append_assoc] at hplaced'
    exact ⟨hjoined'.trans String.append_assoc, hplaced'⟩

theorem foldl_push_ends (events : List AssistantEvent) (b : MessageBuilder) :
    ((events.foldl MessageBuilder.push b).finished = true ↔
        b.finished = true ∨ .messageStop ∈ events) ∧
      ((events.foldl MessageBuilder.push b).flushTextBlock.blocks = [] ↔
        (b.blocks = [] ∧ b.text = "") ∧
          ∀ event ∈ events, textOfEvent event = "" ∧ blockOfEvent event = none) := by
  induction events generalizing b with
  | nil =>
    constructor
    · simp
    · rw [foldl_nil, flush_nil_iff]
      simp
  | cons event events ih =>
    obtain ⟨hdone, hnil⟩ := ih (b.push event)
    rw [push_finished] at hdone
    rw [push_nil_iff] at hnil
    constructor
    · rw [foldl_cons, hdone, or_assoc, mem_cons, eq_comm (a := event)]
    · rw [foldl_cons, hnil, and_assoc, forall_mem_cons]

end Build

theorem build_spec (events : List AssistantEvent) :
    ((∃ result, buildAssistantMessage events = .ok result) ↔ .messageStop ∈ events ∧
      (joined textOfEvent events ≠ "" ∨ placed toolOfEvent textOfEvent "" events ≠ [] ∨
        placed thinkingOfEvent textOfEvent "" events ≠ [])) ∧
    ∀ message usage cacheEvents,
      buildAssistantMessage events = .ok (message, usage, cacheEvents) →
      joined textOfBlock message.blocks = joined textOfEvent events ∧
        messageTools message = placed toolOfEvent textOfEvent "" events ∧
        messageThinking message = placed thinkingOfEvent textOfEvent "" events := by
  obtain ⟨hdone, hnil⟩ := foldl_push_ends events .start
  have hflushed : (events.foldl MessageBuilder.push .start).flushTextBlock.finished =
      (events.foldl MessageBuilder.push .start).finished := by
    unfold MessageBuilder.flushTextBlock
    split <;> rfl
  have hsome : ¬(events.foldl MessageBuilder.push .start).flushTextBlock.blocks = [] ↔
      joined textOfEvent events ≠ "" ∨ placed toolOfEvent textOfEvent "" events ≠ [] ∨
        placed thinkingOfEvent textOfEvent "" events ≠ [] := by
    rw [hnil, Ne, Ne, Ne, joined_eq_empty_iff, placed_eq_nil_iff, placed_eq_nil_iff]
    simp only [blockOfEvent_eq_none_iff, forall_and, MessageBuilder.start]
    tauto
  constructor
  · rw [← hsome]
    unfold buildAssistantMessage
    dsimp only
    rw [hflushed]
    have hstop : (events.foldl MessageBuilder.push .start).finished = false ↔
        .messageStop ∉ events := by
      rw [← Bool.not_eq_true, hdone]
      simp [MessageBuilder.start]
    by_cases hmem : AssistantEvent.messageStop ∈ events
    · rw [if_neg (by rw [hstop]; exact fun h => h hmem)]
      by_cases hblocks : (events.foldl MessageBuilder.push .start).flushTextBlock.blocks = []
      · rw [if_pos hblocks]
        simp [hblocks]
      · rw [if_neg hblocks]
        simp [hmem, hblocks]
    · rw [if_pos (hstop.mpr hmem)]
      simp [hmem]
  · intro message usage cacheEvents hbuilt
    have hmsg : message.blocks =
        (events.foldl MessageBuilder.push .start).flushTextBlock.blocks := by
      unfold buildAssistantMessage at hbuilt
      dsimp only at hbuilt
      split at hbuilt
      · cases hbuilt
      · split at hbuilt
        · cases hbuilt
        · cases hbuilt
          rfl
    have htools : ∀ text, toolOfBlock (.text text) = none := fun _ => rfl
    have hthinking : ∀ text, thinkingOfBlock (.text text) = none := fun _ => rfl
    unfold messageTools messageThinking
    rw [hmsg, joined_flush, placed_flush _ htools, placed_flush _ hthinking,
      (foldl_push_spec toolOfBlock htools events .start).1,
      (foldl_push_spec toolOfBlock htools events .start).2,
      (foldl_push_spec thinkingOfBlock hthinking events .start).2]
    exact ⟨String.empty_append, rfl, rfl⟩

theorem finish_spec (c : Collector) :
    joined textOfEvent c.finish = joined textOfEvent c.events ∧
      placed toolOfEvent textOfEvent "" c.finish = placed toolOfEvent textOfEvent "" c.events ∧
      placed thinkingOfEvent textOfEvent "" c.finish =
        placed thinkingOfEvent textOfEvent "" c.events := by
  unfold Collector.finish
  split
  · rw [joined_append, placed_append, placed_append]
    exact ⟨String.append_empty, append_nil _, append_nil _⟩
  · exact ⟨rfl, rfl, rfl⟩

theorem messageStop_mem_finish {c : Collector} {p : Prop} (h : StopSeen c p) :
    .messageStop ∈ c.finish ↔ p ∨ c.events.any Collector.isContent = true := by
  unfold Collector.finish
  by_cases hp : p
  · have hsaw : c.sawStop = true := h.1.mpr hp
    rw [if_neg (by simp [hsaw])]
    exact iff_of_true (h.2.mpr hp) (.inl hp)
  · have hsaw : c.sawStop = false := by
      rw [← Bool.not_eq_true]
      exact fun hsaw => hp (h.1.mp hsaw)
    by_cases hany : c.events.any Collector.isContent = true
    · rw [if_pos ⟨hsaw, hany⟩]
      simp [hany]
    · rw [if_neg fun hboth => hany hboth.2]
      simp [h.2, hp, hany]

section Whole

variable (toStr : Value → String) (events : List StreamEvent)

theorem built_iff_hasContent :
    (∃ result, buildAssistantMessage (collect toStr events).finish = .ok result) ↔
      HasContent toStr events := by
  obtain ⟨htext, htools, hthinking⟩ := collect_spec toStr events
  obtain ⟨hjoined, hplacedTools, hplacedThinking⟩ := finish_spec (collect toStr events)
  rw [(build_spec _).1, messageStop_mem_finish (collect_stopSeen toStr events), any_isContent_iff,
    hjoined, hplacedTools, hplacedThinking, htext, htools, hthinking]
  unfold HasContent
  rw [someStopped_iff extendTool, someStopped_iff extendThinking]
  tauto

theorem built_blocks {message : ConversationMessage} {usage : Option TokenUsage}
    {cacheEvents : List PromptCacheEvent}
    (h : buildAssistantMessage (collect toStr events).finish = .ok (message, usage, cacheEvents)) :
    joined textOfBlock message.blocks = streamText events ∧
      messageTools message =
        completed extendTool KeyMap.empty (piecesFrom (toolPieces toStr) "" events) ∧
      messageThinking message =
        completed extendThinking KeyMap.empty (piecesFrom thinkingPieces "" events) := by
  obtain ⟨htext, htools, hthinking⟩ := collect_spec toStr events
  obtain ⟨hjoined, hplacedTools, hplacedThinking⟩ := finish_spec (collect toStr events)
  obtain ⟨hm, hmTools, hmThinking⟩ := (build_spec _).2 message usage cacheEvents h
  exact ⟨by rw [hm, hjoined, htext], by rw [hmTools, hplacedTools, htools],
    by rw [hmThinking, hplacedThinking, hthinking]⟩

theorem not_endsInTool (h : EachStopped (piecesFrom (toolPieces toStr) "" events)) :
    ¬EndsInTool toStr events := by
  rintro ⟨before, index, use, after, hpieces, hnot⟩
  obtain ⟨between, note, rest, hafter, -⟩ := h before index use after hpieces
  apply hnot note
  rw [hafter]
  simp

end Whole

def brokenOff : ProviderStream where
  events := [.contentBlockStart 0 (.text ""), .contentBlockDelta 0 (.textDelta "Cleaning up."),
    .contentBlockStop 0, .contentBlockStart 1 (.toolUse "t1" "bash" (.object [])),
    .contentBlockDelta 1 (.inputJsonDelta "\x7b\"command\":")]
  failure := none

end DbClinic.RealClient
