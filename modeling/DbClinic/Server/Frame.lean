import DbClinic.Server.SessionManager

/-!
What a step leaves alone. A turn keeps the wiring of its entry: the ids, the
path and the references the runtime and its executor were built with. No step
but a command of the actor or a restart changes the two session maps.
-/

namespace DbClinic.Server

open DbClinic.Runtime Persistence

/-- The part of an entry that is fixed when it is built. -/
structure Wiring where
  sessionId : String
  path : Option Path
  executorId : String
  channels : Nat
  pending : Nat
  executorFlag : Nat
  executorToken : Nat
  runtimeFlag : Nat
  runtimeToken : Nat
  deriving DecidableEq

def SessionEntry.wiring (e : SessionEntry) : Wiring where
  sessionId := e.runtime.session.sessionId
  path := e.runtime.session.persistencePath
  executorId := e.runtime.executor.sessionId
  channels := e.runtime.executor.channels
  pending := e.runtime.executor.pending
  executorFlag := e.runtime.executor.cancelFlag
  executorToken := e.runtime.executor.cancelToken
  runtimeFlag := e.runtime.cancelSignal
  runtimeToken := e.runtime.cancelToken

def Phase.issued : Phase → Bool
  | .proxyRegister _ _ | .proxyDispatch _ | .proxyWait _ | .proxyCleanup _ _ => true
  | _ => false

def Phase.outcome : Phase → Option TurnResult
  | .ended result | .checkpointed result | .metaLoaded result _ | .unlocked result
  | .replied result => some result
  | _ => none

/-- A phase that control reaches with no effect on the objects of the entry. -/
structure Phase.Plain (p : Phase) : Prop where
  unfinished : p.unfinished = true
  issued : p.issued = false
  notQueued : p ≠ .queued
  notCancelled : p.outcome ≠ some (some .cancelled)

/-- The steps of the worker around `run_turn`. -/
def TurnAct.isTail : TurnAct → Bool
  | .acquire | .saveCheckpoint _ | .loadMeta | .saveMeta _ | .reply => true
  | _ => false

namespace TurnView

inductive Effect (v : TurnView) (w : Nat) (worker : Worker) (flags tokens : Nat → Bool) :
    TurnAct → TurnView → Prop
  | acquire : v.phase = .queued →
      Effect v w worker flags tokens .acquire { v with holder := some w, phase := .starting }
  | move {act : TurnAct} {p : Phase} (channels : ProxyChannels) : act.isTail = false →
      v.phase.inTurn = true → v.phase.issued = false → p.Plain →
      channels.receiving = v.channels.receiving →
      Effect v w worker flags tokens act { v with channels, phase := p }
  | cancelled {iterations : Nat} : v.phase = .loopHead iterations →
      (flags v.entry.runtime.cancelSignal || tokens v.entry.runtime.cancelToken) = true →
      Effect v w worker flags tokens .check { v with phase := .ended (some .cancelled) }
  | push {act : TurnAct} {p : Phase} (m : ConversationMessage) (stamps : PushStamps) :
      act.isTail = false → v.phase.inTurn = true → v.phase.issued = false → p.Plain →
      Effect v w worker flags tokens act (v.push m stamps p)
  | issue {call : ToolCall} : v.phase = .proxyEntry call →
      Effect v w worker flags tokens .proxyCheck (v.issue call)
  | register {call : ToolCall} {instructionId : String} :
      v.phase = .proxyRegister call instructionId →
      Effect v w worker flags tokens .register (v.register call instructionId)
  | dispatch {proxy : ProxyCall} {p : Phase} (channels : ProxyChannels) :
      v.phase = .proxyDispatch proxy →
      p = .proxyWait proxy ∨ p = .proxyCleanup proxy .undelivered →
      channels.receiving = v.channels.receiving →
      Effect v w worker flags tokens .dispatch { v with channels, phase := p }
  | leave {act : TurnAct} {proxy : ProxyCall} {outcome : ProxyOutcome} :
      act.isTail = false → v.phase = .proxyWait proxy →
      (∀ payload, outcome = .result payload →
        (v.oneshots proxy.oneshot).value = some payload) →
      Effect v w worker flags tokens act (v.leaveWait proxy outcome)
  | cleanup {proxy : ProxyCall} {outcome : ProxyOutcome} :
      v.phase = .proxyCleanup proxy outcome →
      Effect v w worker flags tokens .cleanup (v.cleanup proxy outcome)
  | compact {messages : List ConversationMessage} {compaction : SessionCompaction} {now : Nat} :
      v.phase = .completing →
      Effect v w worker flags tokens (.complete (some (messages, compaction, now)))
        (v.complete (some (messages, compaction, now)))
  | panicked {message : String} : v.phase.inTurn = true →
      Effect v w worker flags tokens (.panic message) (v.panicked message)
  | checkpointed {result : TurnResult} {now : Nat} : v.phase = .ended result →
      Effect v w worker flags tokens (.saveCheckpoint now) (v.saveCheckpoint worker result now)
  | metaLoaded {result : TurnResult} : v.phase = .checkpointed result →
      Effect v w worker flags tokens .loadMeta (v.loadMeta worker result)
  | metaSaved {result : TurnResult} {record : Option SessionRecord} {now : Nat} :
      v.phase = .metaLoaded result record →
      Effect v w worker flags tokens (.saveMeta now) (v.saveMeta result record now)
  | replied {result : TurnResult} : v.phase = .unlocked result →
      Effect v w worker flags tokens .reply { v with phase := .replied result }

variable {v v' : TurnView} {w : Nat} {worker : Worker} {flags tokens : Nat → Bool}

private theorem plain_ended {e : TurnResult} (h : e ≠ some .cancelled) :
    (Phase.ended e).Plain := by
  refine ⟨rfl, rfl, by simp, ?_⟩
  simpa [Phase.outcome] using h

variable {act : TurnAct} {p : Phase}

theorem outcome_of_inTurn (h : p.inTurn = true) : p.outcome = none := by
  cases p <;> first | rfl | cases h

private theorem plain_of (hissued : p.issued = false) (hturn : p.inTurn = true) :
    p.Plain := by
  refine ⟨?_, hissued, ?_, ?_⟩
  · cases p <;> first | rfl | cases hturn
  · rintro rfl
    cases hturn
  · rw [outcome_of_inTurn hturn]
    simp

theorem buildAssistantMessage_error {events : List AssistantEvent} {e : RuntimeError}
    (h : buildAssistantMessage events = .error e) : e ≠ .cancelled := by
  unfold buildAssistantMessage at h
  dsimp only at h
  split at h
  · cases h
    simp
  · split at h <;> cases h
    simp

/-- The inversion of `step`. -/
theorem step_effect (h : v.step w worker flags tokens act = some v') :
    Effect v w worker flags tokens act v' := by
  cases act with
  | acquire =>
    simp only [step] at h
    split at h <;> cases h
    exact .acquire ‹_›
  | enter probe stamps =>
    simp only [step] at h
    split at h <;> cases h
    have hphase : v.phase = .starting := ‹_›
    unfold enter
    dsimp only
    split
    · exact .move v.channels rfl (by simp [hphase, Phase.inTurn]) (by simp [hphase, Phase.issued])
        (plain_ended (by simp)) rfl
    · exact .push _ _ rfl (by simp [hphase, Phase.inTurn]) (by simp [hphase, Phase.issued])
        (plain_of rfl rfl)
  | check =>
    simp only [step] at h
    split at h <;> cases h
    rename_i iterations hphase
    unfold check
    split
    · exact .move v.channels rfl (by simp [hphase, Phase.inTurn]) (by simp [hphase, Phase.issued])
        (plain_ended (by simp)) rfl
    · split
      · exact .cancelled hphase ‹_›
      · exact .move v.channels rfl (by simp [hphase, Phase.inTurn])
          (by simp [hphase, Phase.issued]) (plain_of rfl rfl) rfl
  | stream reply stamps =>
    simp only [step] at h
    split at h <;> cases h
    rename_i iterations hphase
    have hturn : v.phase.inTurn = true := by simp [hphase, Phase.inTurn]
    have hissued : v.phase.issued = false := by simp [hphase, Phase.issued]
    unfold stream
    split
    · exact .move v.channels rfl hturn hissued (plain_ended (by simp)) rfl
    · split
      · have herror := buildAssistantMessage_error ‹_›
        exact .move v.channels rfl hturn hissued (plain_ended (by simpa using herror)) rfl
      · dsimp only
        split
        · exact .push _ _ rfl hturn hissued (plain_of rfl rfl)
        · exact .push _ _ rfl hturn hissued (plain_of rfl rfl)
  | gate decision stamps =>
    simp only [step] at h
    split at h <;> cases h
    rename_i iterations rest hphase
    have hturn : v.phase.inTurn = true := by simp [hphase, Phase.inTurn]
    have hissued : v.phase.issued = false := by simp [hphase, Phase.issued]
    unfold gate
    split
    · exact .move v.channels rfl hturn hissued (plain_of rfl rfl) rfl
    · dsimp only
      split
      · exact .push _ _ rfl hturn hissued (plain_of rfl rfl)
      · split
        · exact .move v.channels rfl hturn hissued (plain_of rfl rfl) rfl
        · split
          · exact .move v.channels rfl hturn hissued (plain_of rfl rfl) rfl
          · exact .move v.channels rfl hturn hissued (plain_of rfl rfl) rfl
  | runLocal result =>
    simp only [step] at h
    split at h
    · rename_i call input hphase
      have hturn : v.phase.inTurn = true := by simp [hphase, Phase.inTurn]
      have hissued : v.phase.issued = false := by simp [hphase, Phase.issued]
      split at h
      · cases h
        exact .move v.channels rfl hturn hissued (plain_of rfl rfl) rfl
      · cases h
        exact .move v.channels rfl hturn hissued (plain_of rfl rfl) rfl
    · cases h
  | proxyCheck =>
    simp only [step] at h
    split at h <;> cases h
    rename_i call hphase
    unfold proxyCheck
    split
    · exact .move v.channels rfl (by simp [hphase, Phase.inTurn]) (by simp [hphase, Phase.issued])
        (plain_of rfl rfl) rfl
    · exact .issue hphase
  | register =>
    simp only [step] at h
    split at h <;> cases h
    exact .register ‹_›
  | dispatch =>
    simp only [step] at h
    split at h
    · unfold dispatch at h
      split at h
      · cases h
        exact .dispatch v.channels ‹_› (.inr rfl) rfl
      · split at h <;> cases h
        exact .dispatch _ ‹_› (.inl rfl) rfl
    · cases h
  | observeCancel =>
    simp only [step] at h
    split at h
    · unfold observeCancel at h
      split at h <;> cases h
      exact .leave rfl ‹_› (by simp)
    · cases h
  | observeResult =>
    simp only [step] at h
    split at h
    · unfold observeResult at h
      split at h
      · cases h
      · split at h
        · cases h
          rename_i payload hval
          exact .leave rfl ‹_› (by
            intro p hp
            cases hp
            exact hval)
        · split at h <;> cases h
          exact .leave rfl ‹_› (by simp)
    · cases h
  | observeTimeout =>
    simp only [step] at h
    split at h
    · unfold observeTimeout at h
      split at h <;> cases h
      exact .leave rfl ‹_› (by simp)
    · cases h
  | cleanup =>
    simp only [step] at h
    split at h <;> cases h
    exact .cleanup ‹_›
  | expire =>
    simp only [step] at h
    split at h
    · rename_i proxy hphase
      have hturn : v.phase.inTurn = true := by simp [hphase, Phase.inTurn]
      have hissued : v.phase.issued = false := by simp [hphase, Phase.issued]
      unfold expire at h
      dsimp only at h
      split at h
      · cases h
        exact .move v.channels rfl hturn hissued (plain_of rfl rfl) rfl
      · split at h <;> cases h
        exact .move _ rfl hturn hissued (plain_of rfl rfl) rfl
    · cases h
  | pushResult output failed stamps =>
    simp only [step] at h
    split at h <;> cases h
    rename_i hphase
    exact .push _ _ rfl (by simp [hphase, Phase.inTurn]) (by simp [hphase, Phase.issued])
      (plain_of rfl rfl)
  | complete compacted =>
    simp only [step] at h
    split at h <;> cases h
    rename_i hphase
    cases compacted with
    | none =>
      exact .move v.channels rfl (by simp [hphase, Phase.inTurn])
        (by simp [hphase, Phase.issued]) (plain_ended (by simp)) rfl
    | some c => exact .compact hphase
  | panic message =>
    simp only [step] at h
    split at h <;> cases h
    exact .panicked ‹_›
  | saveCheckpoint now =>
    simp only [step] at h
    split at h <;> cases h
    exact .checkpointed ‹_›
  | loadMeta =>
    simp only [step] at h
    split at h <;> cases h
    exact .metaLoaded ‹_›
  | saveMeta now =>
    simp only [step] at h
    split at h <;> cases h
    exact .metaSaved ‹_›
  | reply =>
    simp only [step] at h
    split at h <;> cases h
    exact .replied ‹_›

@[simp] theorem push_wiring (v : TurnView) (m : ConversationMessage) (s : PushStamps)
    (p : Phase) : (v.push m s p).entry.wiring = v.entry.wiring := by
  simp [push, withSession, SessionEntry.wiring]

theorem push_plain (v : TurnView) (m : ConversationMessage) (s : PushStamps) (h : p.Plain) :
    (v.push m s p).phase.Plain := by
  unfold push
  dsimp only
  split
  · exact h
  · exact plain_ended (by simp)

theorem Effect.wiring (h : Effect v w worker flags tokens act v') :
    v'.entry.wiring = v.entry.wiring := by
  cases h with
  | push m stamps _ _ _ _ => exact push_wiring v m stamps _
  | _ => rfl

theorem Effect.stepIndex (h : Effect v w worker flags tokens act v') :
    ((∀ now, act ≠ .saveCheckpoint now) ∧ v'.entry.stepIndex = v.entry.stepIndex) ∨
      ∃ now, act = .saveCheckpoint now ∧ v'.entry.stepIndex = v.entry.stepIndex + 1 := by
  have hne : ∀ {a : TurnAct}, a.isTail = false → ∀ now, a ≠ .saveCheckpoint now := by
    rintro a ha now rfl
    cases ha
  cases h with
  | checkpointed _ => exact .inr ⟨_, rfl, rfl⟩
  | move _ hact _ _ _ => exact .inl ⟨hne hact, rfl⟩
  | push _ _ hact _ _ _ => exact .inl ⟨hne hact, rfl⟩
  | leave hact _ _ => exact .inl ⟨hne hact, rfl⟩
  | _ => exact .inl ⟨by simp, rfl⟩

theorem Effect.working (h : Effect v w worker flags tokens act v') :
    v.phase.unfinished = true ∨ (v'.phase.unfinished = false ∧ v'.entry = v.entry) := by
  have hturn : ∀ p : Phase, p.inTurn = true → p.unfinished = true := by
    intro p hp
    cases p <;> first | rfl | cases hp
  cases h with
  | acquire hphase => exact .inl (by simp [hphase, Phase.unfinished])
  | move _ _ h _ _ => exact .inl (hturn _ h)
  | cancelled hphase _ => exact .inl (by simp [hphase, Phase.unfinished])
  | push _ _ _ h _ _ => exact .inl (hturn _ h)
  | issue hphase => exact .inl (by simp [hphase, Phase.unfinished])
  | register hphase => exact .inl (by simp [hphase, Phase.unfinished])
  | dispatch _ hphase _ => exact .inl (by simp [hphase, Phase.unfinished])
  | leave _ hphase _ => exact .inl (by simp [hphase, Phase.unfinished])
  | cleanup hphase => exact .inl (by simp [hphase, Phase.unfinished])
  | compact hphase => exact .inl (by simp [hphase, Phase.unfinished])
  | panicked h => exact .inl (hturn _ h)
  | checkpointed hphase => exact .inl (by simp [hphase, Phase.unfinished])
  | metaLoaded hphase => exact .inl (by simp [hphase, Phase.unfinished])
  | metaSaved hphase => exact .inl (by simp [hphase, Phase.unfinished])
  | replied _ => exact .inr ⟨rfl, rfl⟩

theorem Effect.unfinished (h : Effect v w worker flags tokens act v')
    (hunfinished : v'.phase.unfinished = true) : v.phase.unfinished = true := by
  rcases h.working with hworking | ⟨hover, -⟩
  · exact hworking
  · rw [hover] at hunfinished
    cases hunfinished

/-- `run_turn` is entered by taking the lock. -/
theorem Effect.inTurn (h : Effect v w worker flags tokens act v') (hturn : v'.phase.inTurn = true) :
    v.phase.inTurn = true ∨ v.phase = .queued := by
  cases h with
  | acquire hphase => exact .inr hphase
  | move _ _ h _ _ => exact .inl h
  | cancelled hphase _ => exact .inl (by simp [hphase, Phase.inTurn])
  | push _ _ _ h _ _ => exact .inl h
  | issue hphase => exact .inl (by simp [hphase, Phase.inTurn])
  | register hphase => exact .inl (by simp [hphase, Phase.inTurn])
  | dispatch _ hphase _ => exact .inl (by simp [hphase, Phase.inTurn])
  | leave _ hphase _ => exact .inl (by simp [hphase, Phase.inTurn])
  | cleanup hphase => exact .inl (by simp [hphase, Phase.inTurn])
  | compact hphase => exact .inl (by simp [hphase, Phase.inTurn])
  | panicked h => exact .inl h
  | _ => cases hturn

theorem Effect.notQueued (h : Effect v w worker flags tokens act v') :
    v'.phase ≠ .queued := by
  cases h with
  | move _ _ _ _ hplain => exact hplain.notQueued
  | push m stamps _ _ _ hplain => exact (push_plain v m stamps hplain).notQueued
  | dispatch _ _ hp =>
    rcases hp with rfl | rfl
    · simp
    · simp
  | @cleanup proxy outcome hphase => cases outcome <;> simp [TurnView.cleanup, afterCleanup]
  | _ => simp [TurnView.issue, TurnView.register, leaveWait, complete, TurnView.panicked,
      saveCheckpoint, loadMeta, saveMeta]

theorem Effect.outcome (h : Effect v w worker flags tokens act v')
    (hcancelled : v'.phase.outcome = some (some .cancelled)) :
    v.phase.outcome = some (some .cancelled) ∨
      (v.phase.unfinished = true ∧
        (flags v.entry.runtime.cancelSignal || tokens v.entry.runtime.cancelToken) = true) := by
  cases h with
  | move _ _ _ _ hplain => exact absurd hcancelled hplain.notCancelled
  | cancelled hphase hsignals =>
    right
    rw [hphase]
    exact ⟨rfl, hsignals⟩
  | push m stamps _ _ _ hplain =>
    exact absurd hcancelled (push_plain v m stamps hplain).notCancelled
  | dispatch _ _ hp => rcases hp with rfl | rfl <;> cases hcancelled
  | @cleanup proxy outcome hphase => cases outcome <;> cases hcancelled
  | checkpointed hphase =>
    left
    rw [hphase]
    exact hcancelled
  | metaLoaded hphase =>
    left
    rw [hphase]
    exact hcancelled
  | metaSaved hphase =>
    left
    rw [hphase]
    exact hcancelled
  | replied hphase =>
    left
    rw [hphase]
    exact hcancelled
  | _ => cases hcancelled

theorem Effect.receiving (h : Effect v w worker flags tokens act v') :
    v'.channels.receiving = v.channels.receiving := by
  cases h with
  | move _ _ _ _ _ hreceiving => exact hreceiving
  | dispatch _ _ _ hreceiving => exact hreceiving
  | _ => rfl

theorem Effect.next (h : Effect v w worker flags tokens act v') :
    v.next ≤ v'.next := by
  cases h with
  | register _ => exact Nat.le_succ v.next
  | _ => exact Nat.le_refl _

end TurnView

end DbClinic.Server
