import Mathlib.Algebra.Order.BigOperators.Group.List
import DbClinic.Runtime.Conversation
import DbClinic.Runtime.TurnPairing

/-!
The counters of a session's usage over any run of turns. They are 32-bit sums, so each
holds a sum modulo 2 ^ 32. An addition overflows exactly where a counter first differs
from the sum of what was recorded, and it differs ever after.
-/

namespace DbClinic.Runtime

open List

/-- `TokenUsage::total_tokens`. -/
def TokenUsage.totalTokens (usage : TokenUsage) : Nat :=
  addTokens (addTokens (addTokens usage.inputTokens usage.outputTokens)
    usage.cacheCreationInputTokens) usage.cacheReadInputTokens

def TokenUsage.sum (usage : TokenUsage) : Nat :=
  usage.inputTokens + usage.outputTokens + usage.cacheCreationInputTokens +
    usage.cacheReadInputTokens

def sumUsages (usages : List TokenUsage) : TokenUsage where
  inputTokens := (usages.map TokenUsage.inputTokens).sum
  outputTokens := (usages.map TokenUsage.outputTokens).sum
  cacheCreationInputTokens := (usages.map TokenUsage.cacheCreationInputTokens).sum
  cacheReadInputTokens := (usages.map TokenUsage.cacheReadInputTokens).sum

def tally (usages : List TokenUsage) : UsageTracker := usages.foldl UsageTracker.record .new

theorem tally_append (usages more : List TokenUsage) :
    tally (usages ++ more) = more.foldl UsageTracker.record (tally usages) := by
  simp [tally]

def Session.usages (session : Session) : List TokenUsage :=
  session.messages.filterMap ConversationMessage.usage

theorem fromSession_eq (session : Session) :
    UsageTracker.fromSession session = tally session.usages := by
  unfold UsageTracker.fromSession tally Session.usages
  rw [foldl_filterMap]
  congr 1
  funext tracker message
  cases message.usage <;> rfl

def TokenUsage.wrap (usage : TokenUsage) : TokenUsage where
  inputTokens := usage.inputTokens % 2 ^ 32
  outputTokens := usage.outputTokens % 2 ^ 32
  cacheCreationInputTokens := usage.cacheCreationInputTokens % 2 ^ 32
  cacheReadInputTokens := usage.cacheReadInputTokens % 2 ^ 32

theorem tally_cumulative (usages : List TokenUsage) :
    (tally usages).cumulative = (sumUsages usages).wrap := by
  induction usages using List.reverseRecOn with
  | nil => rfl
  | append_singleton usages usage ih =>
    rw [tally_append]
    simp [UsageTracker.record, ih, sumUsages, TokenUsage.wrap, addTokens]

theorem tally_turns (usages : List TokenUsage) :
    (tally usages).turns = usages.length % 2 ^ 32 := by
  induction usages using List.reverseRecOn with
  | nil => rfl
  | append_singleton usages usage ih =>
    rw [tally_append]
    simp [UsageTracker.record, ih, addTokens]

theorem totalTokens_wrap (usage : TokenUsage) : usage.wrap.totalTokens = usage.sum % 2 ^ 32 := by
  simp only [TokenUsage.totalTokens, TokenUsage.wrap, TokenUsage.sum, addTokens]
  omega

theorem sum_sumUsages (usages : List TokenUsage) :
    (sumUsages usages).sum = (usages.map TokenUsage.sum).sum := by
  induction usages with
  | nil => rfl
  | cons usage usages ih =>
    simp only [sumUsages, TokenUsage.sum, map_cons, sum_cons] at ih ⊢
    omega

section Turn

variable {E : Type} (o : Outside E)

def iterationUsage (runtime : ConversationRuntime) (s : TurnState E) : Option TokenUsage :=
  let (cancelled, e₁) := o.cancelRequested s.outside
  if cancelled then none
  else
    match o.stream e₁ ⟨runtime.systemPrompt, s.session.messages⟩ with
    | (.error _, _) => none
    | (.ok events, _) =>
      match buildAssistantMessage events with
      | .error _ => none
      | .ok (_, usage, _) => usage

def loopUsages (runtime : ConversationRuntime) (hasPrompter : Bool) :
    (remaining : Nat) → TurnState E → List TokenUsage
  | 0, _ => []
  | remaining + 1, s =>
    (iterationUsage o runtime s).toList ++
      match iterate o runtime hasPrompter s with
      | (.ok false, s') => loopUsages runtime hasPrompter remaining s'
      | _ => []

def turnUsages (runtime : ConversationRuntime) (userInput : String) (hasPrompter : Bool) (e : E) :
    List TokenUsage :=
  match probeIfCompacted o runtime.session e with
  | (.error _, _) => []
  | (.ok (), e₁) =>
    match pushMessage o runtime.session (.userText userInput) e₁ with
    | (.error _, _, _) => []
    | (.ok (), session, e₂) =>
      loopUsages o runtime hasPrompter runtime.maxIterations
        ⟨e₂, session, runtime.usageTracker, [], [], [], 0, []⟩

def TurnRun.compactions (run : TurnRun E) : Nat :=
  match run.result with
  | .ok summary => if summary.autoCompaction.isSome then 1 else 0
  | .error _ => 0

variable {o}

def Session.compactionCount (session : Session) : Nat :=
  (session.compaction.map SessionCompaction.count).getD 0

theorem recordCompaction_count (session : Session) (summary : String) (removed now : Nat) :
    (session.recordCompaction summary removed now).compactionCount =
      (session.compactionCount + 1) % 2 ^ 32 := by
  unfold Session.recordCompaction Session.compactionCount
  cases session.compaction <;> rfl

theorem maybeAutoCompact_count (session : Session) (tracker : UsageTracker) (threshold now : Nat) :
    (maybeAutoCompact session tracker threshold now).1.compactionCount =
      if (maybeAutoCompact session tracker threshold now).2.isSome then
        (session.compactionCount + 1) % 2 ^ 32
      else session.compactionCount := by
  unfold maybeAutoCompact
  split
  · rfl
  · split
    · rfl
    · rename_i result hcompact
      split
      · rfl
      · rename_i hremoved
        simp only [Option.isSome_some, if_true]
        unfold compactSession at hcompact
        split at hcompact
        · cases hcompact
          exact absurd rfl hremoved
        · dsimp only at hcompact
          split at hcompact
          · cases hcompact
          · cases hcompact
            rw [recordCompaction_count]
            rfl

theorem pushMessage_count (session : Session) (message : ConversationMessage) (e : E) :
    (pushMessage o session message e).2.1.compactionCount = session.compactionCount := by
  unfold pushMessage
  dsimp only
  split <;> rfl

theorem runTools_count (policy : PermissionPolicy) (hasPrompter : Bool) (uses : List ToolUse)
    (session : Session) (e : E) :
    (runTools o policy hasPrompter uses session e).session.compactionCount =
      session.compactionCount := by
  induction uses generalizing session e with
  | nil => rfl
  | cons block uses ih =>
    have hpush := pushMessage_count (o := o) session
      (runTool o policy hasPrompter block e).1.message
      (runTool o policy hasPrompter block e).2
    simp only [runTools]
    split
    · rename_i hfailed
      rw [hfailed] at hpush
      exact hpush
    · rename_i hpushed
      rw [hpushed] at hpush
      exact (ih _ _).trans hpush

theorem iterate_accounts (runtime : ConversationRuntime) (hasPrompter : Bool) (s : TurnState E) :
    (iterate o runtime hasPrompter s).2.usageTracker =
        (iterationUsage o runtime s).toList.foldl UsageTracker.record s.usageTracker ∧
      (iterate o runtime hasPrompter s).2.session.compactionCount =
        s.session.compactionCount := by
  cases hcancel : o.cancelRequested s.outside with
  | mk cancelled e₁ =>
    cases cancelled with
    | true => simp [iterate, iterationUsage, hcancel]
    | false =>
      cases hstream : o.stream e₁ ⟨runtime.systemPrompt, s.session.messages⟩ with
      | mk result e₂ =>
        cases result with
        | error error => simp [iterate, iterationUsage, hcancel, hstream]
        | ok events =>
          cases hbuilt : buildAssistantMessage events with
          | error error => simp [iterate, iterationUsage, hcancel, hstream, hbuilt]
          | ok built =>
            obtain ⟨message, usage, cacheEvents⟩ := built
            have hcounted : (usage.map s.usageTracker.record).getD s.usageTracker =
                usage.toList.foldl UsageTracker.record s.usageTracker := by
              cases usage <;> rfl
            have hcount := pushMessage_count (o := o) s.session message e₂
            simp only [iterate, iterationUsage, hcancel, hstream, hbuilt,
              Bool.false_eq_true, if_false, ← hcounted]
            split
            · rename_i hpush
              rw [hpush] at hcount
              exact ⟨rfl, hcount⟩
            · rename_i hpush
              rw [hpush] at hcount
              have htools := fun session e₃ => (runTools_count (o := o)
                runtime.permissionPolicy hasPrompter (pendingToolUses message) session e₃)
              split
              · exact ⟨rfl, (htools _ _).trans hcount⟩
              · split
                · exact ⟨rfl, (htools _ _).trans hcount⟩
                · exact ⟨rfl, (htools _ _).trans hcount⟩

theorem turnLoop_accounts (runtime : ConversationRuntime) (hasPrompter : Bool) (remaining : Nat)
    (s : TurnState E) :
    (turnLoop o runtime hasPrompter remaining s).2.usageTracker =
        (loopUsages o runtime hasPrompter remaining s).foldl UsageTracker.record s.usageTracker ∧
      (turnLoop o runtime hasPrompter remaining s).2.session.compactionCount =
        s.session.compactionCount := by
  induction remaining generalizing s with
  | zero => exact ⟨rfl, rfl⟩
  | succ remaining ih =>
    obtain ⟨htracker, hcount⟩ := iterate_accounts (o := o) runtime hasPrompter s
    simp only [turnLoop, loopUsages, foldl_append]
    cases hiterate : iterate o runtime hasPrompter s with
    | mk result s' =>
      rw [hiterate] at htracker hcount
      cases result with
      | error error => exact ⟨by simpa using htracker, hcount⟩
      | ok done =>
        cases done with
        | true => exact ⟨by simpa using htracker, hcount⟩
        | false =>
          obtain ⟨htail, hrest⟩ := ih s'
          simp only at htracker hcount ⊢
          rw [htail, hrest, htracker, hcount]
          exact ⟨rfl, rfl⟩

theorem runTurn_accounts (runtime : ConversationRuntime) (userInput : String) (hasPrompter : Bool)
    (e : E) :
    (runTurn o runtime userInput hasPrompter e).runtime.usageTracker =
        (turnUsages o runtime userInput hasPrompter e).foldl UsageTracker.record
          runtime.usageTracker ∧
      (runTurn o runtime userInput hasPrompter e).runtime.session.compactionCount =
        if (runTurn o runtime userInput hasPrompter e).compactions = 0 then
          runtime.session.compactionCount
        else (runtime.session.compactionCount + 1) % 2 ^ 32 := by
  cases hprobe : probeIfCompacted o runtime.session e with
  | mk probed e₁ =>
    cases probed with
    | error error => simp [runTurn, turnUsages, hprobe, TurnRun.compactions]
    | ok _ =>
      have hcount := pushMessage_count (o := o) runtime.session (.userText userInput) e₁
      cases hpush : pushMessage o runtime.session (.userText userInput) e₁ with
      | mk pushed rest =>
        obtain ⟨session, e₂⟩ := rest
        rw [hpush] at hcount
        cases pushed with
        | error error =>
          simpa [runTurn, turnUsages, hprobe, hpush, TurnRun.compactions] using hcount
        | ok _ =>
          have hloop := turnLoop_accounts (o := o) runtime hasPrompter
            runtime.maxIterations ⟨e₂, session, runtime.usageTracker, [], [], [], 0, []⟩
          cases hrun : turnLoop o runtime hasPrompter runtime.maxIterations
              ⟨e₂, session, runtime.usageTracker, [], [], [], 0, []⟩ with
          | mk result s =>
            rw [hrun] at hloop
            obtain ⟨htracker, hsession⟩ := hloop
            cases result with
            | error error =>
              simp only [runTurn, turnUsages, hprobe, hpush, hrun,
                TurnRun.compactions, TurnState.finish]
              exact ⟨htracker, hsession.trans hcount⟩
            | ok _ =>
              simp only [runTurn, turnUsages, hprobe, hpush, hrun,
                TurnRun.compactions, TurnState.finish]
              refine ⟨htracker, ?_⟩
              rw [maybeAutoCompact_count, hsession.trans hcount]
              split
              · simp
              · simp

end Turn

/-- A runtime built around a session, as `new_with_features` does. -/
def ConversationRuntime.around (settings : ConversationRuntime) (session : Session) :
    ConversationRuntime :=
  { settings with session, usageTracker := .fromSession session }

structure TurnInput where
  userInput : String
  hasPrompter : Bool

structure Accounted (E : Type) where
  runtime : ConversationRuntime
  outside : E
  recorded : List TokenUsage
  compactions : Nat

namespace Accounted

variable {E : Type}

def start (settings : ConversationRuntime) (session : Session) (e : E) : Accounted E where
  runtime := settings.around session
  outside := e
  recorded := session.usages
  compactions := 0

def turn (o : Outside E) (a : Accounted E) (input : TurnInput) : Accounted E :=
  let run := runTurn o a.runtime input.userInput input.hasPrompter a.outside
  { runtime := run.runtime
    outside := run.outside
    recorded := a.recorded ++
      turnUsages o a.runtime input.userInput input.hasPrompter a.outside
    compactions := a.compactions + run.compactions }

def turns (o : Outside E) (a : Accounted E) (inputs : List TurnInput) : Accounted E :=
  inputs.foldl (turn o) a

/-- The counters are the sums modulo 2 ^ 32; `initial` is the count of compactions at the
start. -/
structure Kept (initial : Nat) (a : Accounted E) : Prop where
  tracker : a.runtime.usageTracker = tally a.recorded
  count : a.runtime.session.compactionCount =
    if a.compactions = 0 then initial else (initial + a.compactions) % 2 ^ 32

theorem kept_start (settings : ConversationRuntime) (session : Session) (e : E) :
    Kept session.compactionCount (start settings session e) :=
  ⟨fromSession_eq session, rfl⟩

theorem compactions_le_one (run : TurnRun E) : run.compactions ≤ 1 := by
  unfold TurnRun.compactions
  split
  · split <;> simp
  · simp

variable {initial : Nat} {a : Accounted E} {o : Outside E} {usage : TokenUsage}

theorem Kept.turn (h : Kept initial a) (input : TurnInput) : Kept initial (a.turn o input) := by
  obtain ⟨htracker, hcount⟩ := runTurn_accounts (o := o) a.runtime input.userInput
    input.hasPrompter a.outside
  have hone := compactions_le_one
    (runTurn o a.runtime input.userInput input.hasPrompter a.outside)
  refine ⟨?_, ?_⟩
  · simp only [Accounted.turn, tally_append]
    rw [htracker, h.tracker]
  · have hadd : (a.turn o input).compactions = a.compactions +
        (runTurn o a.runtime input.userInput input.hasPrompter a.outside).compactions := rfl
    have hnew : (a.turn o input).runtime.session.compactionCount =
        (runTurn o a.runtime input.userInput input.hasPrompter
          a.outside).runtime.session.compactionCount := rfl
    rw [hadd, hnew, hcount, h.count]
    split_ifs <;> omega

theorem Kept.turns (h : Kept initial a) (inputs : List TurnInput) :
    Kept initial (a.turns o inputs) := by
  induction inputs generalizing a with
  | nil => exact h
  | cons input inputs ih => exact ih (h.turn input)

theorem recorded_prefix (o : Outside E) (a : Accounted E) (inputs : List TurnInput) :
    a.recorded <+: (a.turns o inputs).recorded ∧ a.compactions ≤ (a.turns o inputs).compactions := by
  induction inputs generalizing a with
  | nil => exact ⟨prefix_rfl, Nat.le_refl _⟩
  | cons input inputs ih =>
    obtain ⟨hearlier, hle⟩ := ih (a.turn o input)
    refine ⟨(prefix_append _ _).trans hearlier, ?_⟩
    exact (Nat.le_add_right _ _).trans hle

/-- Every counter is what it counts: no addition has overflowed. -/
structure Exact (initial : Nat) (a : Accounted E) : Prop where
  cumulative : a.runtime.usageTracker.cumulative = sumUsages a.recorded
  turnCount : a.runtime.usageTracker.turns = a.recorded.length
  totals : ∀ usage ∈ a.runtime.usageTracker.cumulative :: a.recorded,
    usage.totalTokens = usage.sum
  compactionCount : a.runtime.session.compactionCount = initial + a.compactions

/-- The recorded tokens together, the recorded usages and the compactions, if there were
any, are fewer than 2 ^ 32 each. -/
structure Bounded (initial : Nat) (a : Accounted E) : Prop where
  tokens : (sumUsages a.recorded).sum < 2 ^ 32
  usages : a.recorded.length < 2 ^ 32
  compactions : a.compactions = 0 ∨ initial + a.compactions < 2 ^ 32

theorem totalTokens_eq (h : usage.sum < 2 ^ 32) :
    usage.totalTokens = usage.sum := by
  simp only [TokenUsage.sum] at h
  simp only [TokenUsage.totalTokens, TokenUsage.sum, addTokens]
  omega

theorem wrap_eq (h : usage.sum < 2 ^ 32) : usage.wrap = usage := by
  simp only [TokenUsage.sum] at h
  simp only [TokenUsage.wrap]
  congr 1 <;> omega

theorem Kept.exact_iff (h : Kept initial a) :
    Exact initial a ↔ Bounded initial a := by
  have hcumulative := tally_cumulative a.recorded
  have hturns := tally_turns a.recorded
  rw [← h.tracker] at hcumulative hturns
  constructor
  · intro hexact
    refine ⟨?_, ?_, ?_⟩
    · have htotal := hexact.totals _ mem_cons_self
      rw [hcumulative, totalTokens_wrap, ← hcumulative, hexact.cumulative] at htotal
      omega
    · have hcount := hexact.turnCount
      omega
    · have hcount := h.count
      rw [hexact.compactionCount] at hcount
      split at hcount
      · exact .inl (by omega)
      · exact .inr (by omega)
  · intro hbounded
    have hsum : a.runtime.usageTracker.cumulative = sumUsages a.recorded := by
      rw [hcumulative, wrap_eq hbounded.tokens]
    refine ⟨hsum, ?_, ?_, ?_⟩
    · rw [hturns, Nat.mod_eq_of_lt hbounded.usages]
    · intro usage husage
      apply totalTokens_eq
      rcases mem_cons.mp husage with rfl | husage
      · rw [hsum]
        exact hbounded.tokens
      · have hle := single_le_sum (fun _ _ => Nat.zero_le _) _
          (mem_map_of_mem (f := TokenUsage.sum) husage)
        have htokens := hbounded.tokens
        rw [sum_sumUsages] at htokens
        omega
    · rw [h.count]
      rcases hbounded.compactions with hnone | hfew
      · simp [hnone]
      · split
        · omega
        · exact Nat.mod_eq_of_lt hfew

theorem Bounded.earlier {inputs : List TurnInput} (h : Bounded initial (a.turns o inputs)) :
    Bounded initial a := by
  obtain ⟨⟨later, hlater⟩, hle⟩ := recorded_prefix o a inputs
  have htokens := h.tokens
  have husages := h.usages
  rw [sum_sumUsages, ← hlater, map_append, sum_append] at htokens
  rw [← hlater, length_append] at husages
  refine ⟨?_, by omega, ?_⟩
  · rw [sum_sumUsages]
    omega
  · rcases h.compactions with hnone | hfew
    · exact .inl (by omega)
    · exact .inr (by omega)

/-- Along a run of turns from any session, no counter overflows exactly if what is recorded
in the whole run stays below 2 ^ 32. -/
theorem usage_exact_along_iff (o : Outside E) (settings : ConversationRuntime)
    (session : Session) (e : E) (inputs : List TurnInput) :
    (∀ done, done <+: inputs →
        Exact session.compactionCount ((start settings session e).turns o done)) ↔
      Bounded session.compactionCount ((start settings session e).turns o inputs) := by
  have hkept := kept_start settings session e
  constructor
  · intro hexact
    exact (hkept.turns inputs).exact_iff.mp (hexact inputs prefix_rfl)
  · rintro hbounded done ⟨later, rfl⟩
    apply (hkept.turns done).exact_iff.mpr
    have hsplit : (start settings session e).turns o (done ++ later) =
        ((start settings session e).turns o done).turns o later := foldl_append
    rw [hsplit] at hbounded
    exact hbounded.earlier

end Accounted

def fullMessage : JsonValue :=
  .object [("blocks", .array []), ("role", .string "assistant"),
    ("usage", .object [("cache_creation_input_tokens", .number 0),
      ("cache_read_input_tokens", .number 0), ("input_tokens", .number 4294967295),
      ("output_tokens", .number 0)])]

def fullSession : JsonValue :=
  .object [("messages", .array [fullMessage, fullMessage]), ("version", .number 1)]

/-- Two usages that fit 32 bits each are decoded, and their sum does not fit. -/
theorem two_full_usages_overflow :
    ∃ session, Session.fromJson fullSession 0 ⟨0, 0⟩ = .ok session ∧
      (UsageTracker.fromSession session).cumulative.inputTokens = 4294967294 ∧
      ¬ ∀ done, done <+: [] → Accounted.Exact session.compactionCount
        ((Accounted.start searchRuntime session 0).turns searchPersisted done) := by
  refine ⟨_, rfl, by decide, ?_⟩
  intro hexact
  exact absurd (hexact [] prefix_rfl).cumulative (by decide)

end DbClinic.Runtime
