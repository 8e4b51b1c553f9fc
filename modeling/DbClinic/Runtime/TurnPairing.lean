import DbClinic.Runtime.Conversation
import DbClinic.Runtime.ToolPairing

/-!
A turn keeps tool uses and tool results paired, whatever its result: every
assistant message it pushes is answered in full before the loop can end, and
the compaction at its end keeps the pairing.
-/

namespace DbClinic.Runtime

open List

theorem PairedBy.append {answers : List (String × String) → List ConversationMessage → Prop}
    {messages more : List ConversationMessage} (h : PairedBy answers messages)
    (hmore : PairedBy answers more) (hseam : ∀ next ∈ more.head?, next.role ≠ .tool) :
    PairedBy answers (messages ++ more) := by
  induction h with
  | nil => exact hmore
  | other hnoResult hnoUse _ ih => exact .other hnoResult hnoUse ih
  | call hrole huses hnoResult hresults hanswers hnext hrest ih =>
    rename_i message results rest
    rw [cons_append, append_assoc]
    refine .call hrole huses hnoResult hresults hanswers ?_ ih
    cases rest with
    | nil => exact hseam
    | cons first rest => exact hnext

theorem noResult_append {blocks : List ContentBlock} {block : ContentBlock}
    (h : ∀ b ∈ blocks, b.isToolResult = false) (hblock : block.isToolResult = false) :
    ∀ b ∈ blocks ++ [block], b.isToolResult = false := by
  intro b hb
  rcases mem_append.mp hb with hb | hb
  · exact h b hb
  · rw [mem_singleton.mp hb, hblock]

theorem noResult_flush {b : MessageBuilder} (h : ∀ block ∈ b.blocks, block.isToolResult = false) :
    ∀ block ∈ b.flushTextBlock.blocks, block.isToolResult = false := by
  unfold MessageBuilder.flushTextBlock
  split
  · exact h
  · exact noResult_append h rfl

theorem noResult_push {b : MessageBuilder} (h : ∀ block ∈ b.blocks, block.isToolResult = false)
    (event : AssistantEvent) : ∀ block ∈ (b.push event).blocks, block.isToolResult = false := by
  cases event with
  | thinking thinking signature => exact noResult_append (noResult_flush h) rfl
  | toolUse id name input => exact noResult_append (noResult_flush h) rfl
  | textDelta delta => exact h
  | usage value => exact h
  | promptCache event => exact h
  | messageStop => exact h

theorem noResult_foldl (events : List AssistantEvent) {b : MessageBuilder}
    (h : ∀ block ∈ b.blocks, block.isToolResult = false) :
    ∀ block ∈ (events.foldl MessageBuilder.push b).blocks, block.isToolResult = false := by
  induction events generalizing b with
  | nil => exact h
  | cons event events ih => exact ih (noResult_push h event)

theorem buildAssistantMessage_ok {events : List AssistantEvent} {message : ConversationMessage}
    {usage : Option TokenUsage} {cacheEvents : List PromptCacheEvent}
    (h : buildAssistantMessage events = .ok (message, usage, cacheEvents)) :
    message.role = .assistant ∧ HoldsNoResult message := by
  unfold buildAssistantMessage at h
  dsimp only at h
  split at h
  · cases h
  · split at h
    · cases h
    · cases h
      exact ⟨rfl, noResult_flush (noResult_foldl events nofun)⟩

theorem toolUses_eq (message : ConversationMessage) :
    toolUses message = (pendingToolUses message).map fun use => (use.id, use.name) := by
  unfold toolUses pendingToolUses
  rw [map_filterMap]
  congr 1
  funext block
  cases block <;> rfl

section Turn

variable {E : Type} {o : Outside E}

theorem runTool_message (policy : PermissionPolicy) (hasPrompter : Bool) (block : ToolUse) (e : E) :
    ∃ output isError, (runTool o policy hasPrompter block e).1.message =
      .toolResult block.id block.name output isError := by
  unfold runTool
  dsimp only
  split
  · exact ⟨_, _, rfl⟩
  · split
    · exact ⟨_, _, rfl⟩
    · exact ⟨_, _, rfl⟩

/-- The pushes of the turn are persisted. -/
def Persists (o : Outside E) : Prop :=
  ∀ e session message, (o.persist e session message).1 = .ok ()

theorem pushMessage_persisted (hpersists : Persists o) (session : Session)
    (message : ConversationMessage) (e : E) :
    ∃ session' e', pushMessage o session message e = (.ok (), session', e') ∧
      session'.messages = session.messages ++ [message] := by
  unfold pushMessage
  dsimp only
  split
  · exact ⟨_, _, rfl, rfl⟩
  · rename_i error e₂ herror
    have hok := hpersists (o.clock e).2
      { session.touch (o.clock e).1 with messages := session.messages ++ [message] } message
    rw [show o.persist (o.clock e).2 { session.touch (o.clock e).1 with
        messages := session.messages ++ [message] } message = (.error error, e₂) from herror] at hok
    cases hok

theorem runTools_persisted (hpersists : Persists o) (policy : PermissionPolicy)
    (hasPrompter : Bool) (uses : List ToolUse) (session : Session) (e : E) :
    (runTools o policy hasPrompter uses session e).error = none ∧
      ∃ results, (runTools o policy hasPrompter uses session e).session.messages =
          session.messages ++ results ∧
        InOrder (uses.map fun use => (use.id, use.name)) results := by
  induction uses generalizing session e with
  | nil => exact ⟨rfl, [], by simp [runTools], .nil⟩
  | cons block rest ih =>
    obtain ⟨output, isError, hmsg⟩ := runTool_message (o := o) policy hasPrompter block e
    obtain ⟨session', e', hpush, hmsgs⟩ := pushMessage_persisted hpersists session
      (runTool o policy hasPrompter block e).1.message (runTool o policy hasPrompter block e).2
    obtain ⟨herror, results, hresults, hinOrder⟩ := ih session' e'
    simp only [runTools, hpush]
    refine ⟨herror, (runTool o policy hasPrompter block e).1.message :: results, ?_, ?_⟩
    · rw [hresults, hmsgs, append_assoc]
      rfl
    · rw [map_cons, hmsg]
      exact .cons ⟨rfl, output, isError, rfl⟩ hinOrder

theorem isResult_of_inOrder {uses : List (String × String)} {results : List ConversationMessage}
    (h : InOrder uses results) : ∀ r ∈ results, IsResultMessage r := by
  induction h with
  | nil => nofun
  | cons hfirst _ ih =>
    obtain ⟨-, output, isError, hblocks⟩ := hfirst
    intro r hr
    rcases mem_cons.mp hr with rfl | hr
    · rw [IsResultMessage, hblocks]
      simp [ContentBlock.isToolResult]
    · exact ih r hr

theorem PairedBy.push_answered {messages results : List ConversationMessage}
    {message : ConversationMessage} (h : PairedBy InOrder messages)
    (hrole : message.role = .assistant) (hnoResult : HoldsNoResult message)
    (hinOrder : InOrder (toolUses message) results) :
    PairedBy InOrder (messages ++ message :: results) := by
  refine h.append ?_ ?_
  · by_cases huses : toolUses message = []
    · rw [huses] at hinOrder
      cases hinOrder
      exact .other hnoResult (fun _ => huses) .nil
    · have hcall : PairedBy InOrder (message :: (results ++ [])) :=
        .call hrole huses hnoResult (isResult_of_inOrder hinOrder) hinOrder (by simp) .nil
      rwa [append_nil] at hcall
  · intro next hnext
    cases hnext
    rw [hrole]
    decide

theorem iterate_paired (hpersists : Persists o) {runtime : ConversationRuntime}
    {hasPrompter : Bool} {s s' : TurnState E} {result : Except RuntimeError Bool}
    (hiterate : iterate o runtime hasPrompter s = (result, s'))
    (h : PairedBy InOrder s.session.messages) : PairedBy InOrder s'.session.messages := by
  cases iterate_effect o hiterate with
  | stopped hsession _ _ =>
    rw [hsession]
    exact h
  | unpersisted hpush hlog =>
    rename_i message e e' session'
    obtain ⟨session, e₂, hok, -⟩ := pushMessage_persisted hpersists s.session message e
    rw [hpush] at hok
    cases hok
  | pushed hbuilt hpush htools hsession hlog hresults hres =>
    rename_i events message usage cacheEvents e e' session' tools
    obtain ⟨hrole, hnoResult⟩ := buildAssistantMessage_ok hbuilt
    obtain ⟨session, e₂, hok, hmsgs⟩ := pushMessage_persisted hpersists s.session message e
    rw [hpush] at hok
    cases hok
    obtain ⟨-, results, hresults, hinOrder⟩ := runTools_persisted hpersists
      runtime.permissionPolicy hasPrompter (pendingToolUses message) session' e'
    rw [hsession, htools, hresults, hmsgs, append_assoc]
    exact h.push_answered hrole hnoResult (toolUses_eq message ▸ hinOrder)

theorem turnLoop_paired (hpersists : Persists o) (runtime : ConversationRuntime)
    (hasPrompter : Bool) (remaining : Nat) {s : TurnState E}
    (h : PairedBy InOrder s.session.messages) :
    PairedBy InOrder (turnLoop o runtime hasPrompter remaining s).2.session.messages := by
  induction remaining generalizing s with
  | zero => exact h
  | succ remaining ih =>
    unfold turnLoop
    split
    · rename_i hiterate
      exact iterate_paired hpersists hiterate h
    · rename_i hiterate
      exact iterate_paired hpersists hiterate h
    · rename_i hiterate
      exact ih (iterate_paired hpersists hiterate h)

theorem maybeAutoCompact_paired {session : Session} (h : PairedBy InOrder session.messages)
    (usageTracker : UsageTracker) (threshold now : Nat) :
    PairedBy InOrder (maybeAutoCompact session usageTracker threshold now).1.messages := by
  have hpreserve : 1 ≤ ({ CompactionConfig.standard with
      maxEstimatedTokens := 0 } : CompactionConfig).preserveRecentMessages := by decide
  obtain ⟨result, hres, hpaired⟩ := h.compactSession hpreserve now
  unfold maybeAutoCompact
  split
  · exact h
  · rw [hres]
    dsimp only
    split
    · exact h
    · exact hpaired

/-- A turn whose pushes are persisted leaves the session's messages paired,
whatever its result. -/
theorem runTurn_keeps_pairing (o : Outside E) (runtime : ConversationRuntime) (userInput : String)
    (hasPrompter : Bool) (e : E) (hpersists : Persists o)
    (hpaired : PairedBy InOrder runtime.session.messages) :
    PairedBy InOrder (runTurn o runtime userInput hasPrompter e).runtime.session.messages := by
  unfold runTurn
  split
  · exact hpaired
  · rename_i e₁ _
    obtain ⟨session, e₂, hpush, hmsgs⟩ :=
      pushMessage_persisted hpersists runtime.session (.userText userInput) e₁
    have hstart : PairedBy InOrder session.messages := by
      rw [hmsgs]
      have hnoResult : HoldsNoResult (.userText userInput) := by
        simp [HoldsNoResult, ConversationMessage.userText, ContentBlock.isToolResult]
      refine hpaired.append (.other hnoResult ?_ .nil) ?_
      · intro huse
        cases huse
      · intro next hnext hrole
        cases hnext
        cases hrole
    have hloop := turnLoop_paired hpersists runtime hasPrompter runtime.maxIterations
      (s := ⟨e₂, session, runtime.usageTracker, [], [], [], 0, []⟩) hstart
    rw [hpush]
    dsimp only
    split
    · rename_i error s hres
      rw [hres] at hloop
      exact hloop
    · rename_i s hres
      rw [hres] at hloop
      exact maybeAutoCompact_paired hloop _ _ _

end Turn

/-- A provider that answers with two searches and then with a text. The session's
file takes a record while fewer than `room` messages are in the session. -/
def searchOutside (room : Nat) : Outside Nat where
  stream calls _ :=
    (.ok (if calls = 0 then
        [.toolUse "call_1" "search" "*.rs", .toolUse "call_2" "search" "*.py", .messageStop]
      else [.textDelta "Done.", .messageStop]), calls + 1)
  execute calls _ input := (.ok ("found " ++ input), calls)
  preToolUse calls _ _ := (.allow [], calls)
  postToolUse calls _ _ _ _ := (.allow [], calls)
  postToolUseFailure calls _ _ _ := (.allow [], calls)
  cancelRequested calls := (false, calls)
  decide calls _ := (.deny "not now", calls)
  clock calls := (0, calls)
  persist calls session _ :=
    (if session.messages.length < room then .ok () else .error "disk full", calls)
  fromStr _ := none

def searchRuntime : ConversationRuntime where
  session := Session.new 0 ⟨0, 0⟩
  permissionPolicy := .new .allow
  systemPrompt := []
  maxIterations := 10
  usageTracker := .new
  autoCompactionInputTokensThreshold := 100000

/-- The session's file takes every record. -/
def searchPersisted : Outside Nat :=
  { searchOutside 0 with persist := fun calls _ _ => (.ok (), calls) }

theorem runTurn_keeps_pairing_search :
    (runTurn searchPersisted searchRuntime "Search" false 0).runtime.session.messages.length = 5 ∧
      PairedBy InOrder
        (runTurn searchPersisted searchRuntime "Search" false 0).runtime.session.messages :=
  ⟨by decide +kernel, runTurn_keeps_pairing searchPersisted searchRuntime "Search" false 0
    (fun _ _ _ => rfl) .nil⟩

end DbClinic.Runtime
