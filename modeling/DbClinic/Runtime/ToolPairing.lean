import DbClinic.Runtime.Compaction

/-!
The pairing of tool uses and tool results that a provider expects of a message
list, and that compaction keeps it: the cut is walked back to a message that is
no tool result, and what follows such a message is paired by itself.
-/

namespace DbClinic.Runtime

open List

def toolUses (message : ConversationMessage) : List (String × String) :=
  message.blocks.filterMap fun block =>
    match block with
    | .toolUse id name _ => some (id, name)
    | _ => none

def HoldsNoResult (message : ConversationMessage) : Prop :=
  ∀ block ∈ message.blocks, block.isToolResult = false

instance (message : ConversationMessage) : Decidable (HoldsNoResult message) :=
  inferInstanceAs (Decidable (∀ block ∈ message.blocks, block.isToolResult = false))

def IsResultMessage (message : ConversationMessage) : Prop :=
  message.blocks ≠ [] ∧ ∀ block ∈ message.blocks, block.isToolResult = true

/-- Messages in which each assistant message with tool uses is directly followed
by the messages that answer them, and in which no tool result occurs elsewhere.
How the results answer the uses is the parameter. -/
inductive PairedBy (answers : List (String × String) → List ConversationMessage → Prop) :
    List ConversationMessage → Prop where
  | nil : PairedBy answers []
  | other {message : ConversationMessage} {rest : List ConversationMessage}
      (hnoResult : HoldsNoResult message)
      (hnoUse : message.role = .assistant → toolUses message = [])
      (hrest : PairedBy answers rest) :
      PairedBy answers (message :: rest)
  | call {message : ConversationMessage} {results rest : List ConversationMessage}
      (hrole : message.role = .assistant) (huses : toolUses message ≠ [])
      (hnoResult : HoldsNoResult message) (hresults : ∀ r ∈ results, IsResultMessage r)
      (hanswers : answers (toolUses message) results)
      (hnext : ∀ next ∈ rest.head?, next.role ≠ .tool) (hrest : PairedBy answers rest) :
      PairedBy answers (message :: (results ++ rest))

/-- One message of the role `tool` for each use, in the order of the uses, with
a single result for that use. -/
def InOrder : List (String × String) → List ConversationMessage → Prop :=
  List.Forall₂ fun use result => result.role = .tool ∧
    ∃ output isError, result.blocks = [.toolResult use.1 use.2 output isError]

variable {message : ConversationMessage}
variable {answers : List (String × String) → List ConversationMessage → Prop}
variable {messages : List ConversationMessage}

theorem starts_of_noResult (h : HoldsNoResult message) :
    startsWithToolResult message = false := by
  unfold startsWithToolResult
  cases hblocks : message.blocks with
  | nil => rfl
  | cons block rest => exact h block (by simp [hblocks])

theorem starts_of_isResult (h : IsResultMessage message) :
    startsWithToolResult message = true := by
  obtain ⟨hne, hall⟩ := h
  unfold startsWithToolResult
  cases hblocks : message.blocks with
  | nil => exact absurd hblocks hne
  | cons block rest => exact hall block (by simp [hblocks])

theorem not_hasToolUse_of_isResult (h : IsResultMessage message) :
    hasToolUse message = false := by
  unfold hasToolUse
  rw [any_eq_false]
  intro block hblock
  have hres := h.2 block hblock
  cases block <;> simp_all [ContentBlock.isToolUse, ContentBlock.isToolResult]

section Paired

variable {answers : List (String × String) → List ConversationMessage → Prop}
variable {messages : List ConversationMessage}

theorem PairedBy.mem_cases (h : PairedBy answers messages) (hmem : message ∈ messages) :
    IsResultMessage message ∨ HoldsNoResult message := by
  induction h with
  | nil => cases hmem
  | other hnoResult _ _ ih =>
    rcases mem_cons.mp hmem with rfl | hmem
    · exact .inr hnoResult
    · exact ih hmem
  | call _ _ hnoResult hresults _ _ _ ih =>
    rcases mem_cons.mp hmem with rfl | hmem
    · exact .inr hnoResult
    · rcases mem_append.mp hmem with hmem | hmem
      · exact .inl (hresults _ hmem)
      · exact ih hmem

theorem PairedBy.starts_of_hasToolUse (h : PairedBy answers messages) (hmem : message ∈ messages)
    (huse : hasToolUse message = true) :
    startsWithToolResult message = false := by
  rcases h.mem_cases hmem with hres | hnoResult
  · rw [not_hasToolUse_of_isResult hres] at huse
    cases huse
  · exact starts_of_noResult hnoResult

theorem PairedBy.drop (h : PairedBy answers messages) {k : Nat}
    (hcut : ∀ message, messages[k]? = some message → startsWithToolResult message = false) :
    PairedBy answers (messages.drop k) := by
  induction h generalizing k with
  | nil => simpa using PairedBy.nil
  | other hnoResult hnoUse hrest ih =>
    cases k with
    | zero => exact .other hnoResult hnoUse hrest
    | succ k => exact ih hcut
  | call hrole huses hnoResult hresults hanswers hnext hrest ih =>
    rename_i message results rest
    cases k with
    | zero => exact .call hrole huses hnoResult hresults hanswers hnext hrest
    | succ k =>
      rw [drop_succ_cons]
      rcases Nat.lt_or_ge k results.length with hk | hk
      · -- the cut would be before one of the results
        have hget : (message :: (results ++ rest))[k + 1]? = some results[k] := by
          rw [getElem?_cons_succ, getElem?_append_left hk]
          exact getElem?_eq_getElem hk
        have hstarts := starts_of_isResult (hresults _ (getElem_mem hk))
        rw [hcut _ hget] at hstarts
        cases hstarts
      · rw [drop_append, drop_eq_nil_of_le hk, nil_append]
        apply ih
        intro message' hmsg'
        apply hcut
        rw [getElem?_cons_succ, getElem?_append_right hk]
        exact hmsg'

theorem PairedBy.tail_of_system {rest : List ConversationMessage}
    (h : PairedBy answers (message :: rest)) (hrole : message.role = .system) :
    PairedBy answers rest := by
  cases h with
  | other _ _ hrest => exact hrest
  | call hassistant =>
    rw [hrole] at hassistant
    cases hassistant

end Paired

theorem existingSummary_role {rest : List ConversationMessage}
    (h : (existingSummary (message :: rest)).isSome = true) : message.role = .system := by
  by_contra hrole
  simp [existingSummary, extractExistingCompactedSummary, hrole] at h

theorem PairedBy.drop_summary (h : PairedBy answers messages) :
    PairedBy answers (messages.drop (compactedSummaryPrefixLen messages)) := by
  unfold compactedSummaryPrefixLen
  split
  · rename_i hsummary
    cases messages with
    | nil => simpa using h
    | cons message rest => exact h.tail_of_system (existingSummary_role hsummary)
  · exact h

variable {k : Nat} {session : Session} {config : CompactionConfig}

theorem walkBack_paired {prefixLen keepFrom : Nat} (hpaired : PairedBy answers messages)
    (hsummary : PairedBy answers (messages.drop prefixLen)) (hk : prefixLen ≤ k)
    (hwalk : walkBack messages prefixLen k = some keepFrom) :
    PairedBy answers (messages.drop keepFrom) := by
  induction k with
  | zero =>
    cases hwalk
    exact hpaired
  | succ k ih =>
    unfold walkBack at hwalk
    split at hwalk
    · rename_i hle
      cases hwalk
      rwa [Nat.le_antisymm hle hk]
    · rename_i hgt
      split at hwalk
      · rename_i firstPreserved preceding hfirst hpreceding
        split at hwalk
        · rename_i hstarts
          cases hwalk
          apply hpaired.drop
          intro message hmsg
          rw [hfirst] at hmsg
          cases hmsg
          exact hstarts
        · split at hwalk
          · rename_i huse
            cases hwalk
            apply hpaired.drop
            intro message hmsg
            rw [hpreceding] at hmsg
            cases hmsg
            exact hpaired.starts_of_hasToolUse (mem_of_getElem? hpreceding) huse
          · exact ih (by omega) hwalk
      · cases hwalk

theorem walkBack_total (prefixLen : Nat) (hk : k < messages.length) :
    ∃ keepFrom, walkBack messages prefixLen k = some keepFrom := by
  induction k with
  | zero => exact ⟨0, rfl⟩
  | succ k ih =>
    have hk' : k < messages.length := by omega
    unfold walkBack
    rw [getElem?_eq_getElem hk, getElem?_eq_getElem hk']
    dsimp only
    split
    · exact ⟨_, rfl⟩
    · split
      · exact ⟨_, rfl⟩
      · split
        · exact ⟨_, rfl⟩
        · exact ih hk'

theorem shouldCompact_length (h : shouldCompact session config = true) :
    config.preserveRecentMessages + compactedSummaryPrefixLen session.messages <
      session.messages.length := by
  simp only [shouldCompact, Bool.and_eq_true, decide_eq_true_eq, length_drop] at h
  omega

theorem PairedBy.cons_summary (h : PairedBy answers messages) (text : String) :
    PairedBy answers (⟨.system, [.text text], none⟩ :: messages) :=
  .other (by simp [HoldsNoResult, ContentBlock.isToolResult]) nofun h

theorem PairedBy.compactSession (hpaired : PairedBy answers session.messages)
    (hpreserve : 1 ≤ config.preserveRecentMessages) (now : Nat) :
    ∃ result, Runtime.compactSession session config now = some result ∧
      PairedBy answers result.compactedSession.messages := by
  unfold Runtime.compactSession
  split
  · exact ⟨_, rfl, hpaired⟩
  · rename_i hshould
    have hlen : config.preserveRecentMessages + compactedSummaryPrefixLen session.messages <
        session.messages.length := shouldCompact_length (by simpa using hshould)
    have hcut : session.messages.length - config.preserveRecentMessages <
        session.messages.length := by omega
    have hsummary : compactedSummaryPrefixLen session.messages ≤
        session.messages.length - config.preserveRecentMessages := by omega
    obtain ⟨keepFrom, hwalk⟩ := walkBack_total (compactedSummaryPrefixLen session.messages) hcut
    have hkept := walkBack_paired hpaired hpaired.drop_summary hsummary hwalk
    dsimp only
    rw [hwalk]
    exact ⟨_, rfl, hkept.cons_summary _⟩

/-- Compaction of a session whose tool uses and results are paired succeeds and
leaves them paired. -/
theorem compactSession_keeps_pairing
    (answers : List (String × String) → List ConversationMessage → Prop) (session : Session)
    (config : CompactionConfig) (now : Nat) (hpaired : PairedBy answers session.messages)
    (hpreserve : 1 ≤ config.preserveRecentMessages) :
    ∃ result, compactSession session config now = some result ∧
      PairedBy answers result.compactedSession.messages :=
  hpaired.compactSession hpreserve now

def searchSession : Session :=
  { Session.new 0 ⟨0, 0⟩ with
    messages := [
      .userText "Search for files",
      ⟨.assistant, [.toolUse "call_1" "search" "*.rs", .toolUse "call_2" "search" "*.py"], none⟩,
      .toolResult "call_1" "search" "found 5 files" false,
      .toolResult "call_2" "search" "found 2 files" false,
      ⟨.assistant, [.text "Done."], none⟩] }

theorem searchSession_paired : PairedBy InOrder searchSession.messages := by
  refine .other (by decide) nofun ?_
  refine @PairedBy.call _ _ [.toolResult "call_1" "search" "found 5 files" false,
    .toolResult "call_2" "search" "found 2 files" false] _
    rfl (by simp [toolUses]) (by decide)
    (by simp [IsResultMessage, ConversationMessage.toolResult, ContentBlock.isToolResult]) ?_
    (by simp) ?_
  · exact .cons ⟨rfl, _, _, rfl⟩ (.cons ⟨rfl, _, _, rfl⟩ .nil)
  · exact .other (by decide) (fun _ => rfl) .nil

theorem compactSession_keeps_pairing_search :
    ∃ result, compactSession searchSession ⟨2, 0⟩ 1 = some result ∧
      PairedBy InOrder result.compactedSession.messages :=
  compactSession_keeps_pairing InOrder searchSession ⟨2, 0⟩ 1 searchSession_paired (by decide)

end DbClinic.Runtime
