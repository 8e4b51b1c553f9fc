import Mathlib
import DbClinic.Server.Wired

/-!
Proxy instructions. An instruction is issued when its proxy call registers the
one-shot channel for the result. Its id is the session id and a number the
executor counts up, so one runtime never issues an id twice; a runtime built
later for the same session id counts from one again.
-/

namespace DbClinic.Server

open DbClinic.Runtime Persistence Transition List Function

/-- The id a worker has taken from the executor and not registered yet. -/
def Phase.registering : Phase → Option String
  | .proxyRegister _ instructionId => some instructionId
  | _ => none

def Phase.proxyCall : Phase → Option ProxyCall
  | .proxyDispatch proxy | .proxyWait proxy | .proxyCleanup proxy _ => some proxy
  | _ => none

variable {p : Phase} {w : Nat} {act : TurnAct} {a : Action}

theorem Phase.registering_of_not_issued (h : p.issued = false) :
    p.registering = none := by
  cases p <;> first | rfl | cases h

theorem Phase.proxyCall_of_not_issued (h : p.issued = false) :
    p.proxyCall = none := by
  cases p <;> first | rfl | cases h

namespace TurnView

/-- A step that takes no instruction id and registers none. -/
structure Passive (v v' : TurnView) : Prop where
  next : v'.next = v.next
  nextSeq : v'.entry.runtime.executor.nextSeq = v.entry.runtime.executor.nextSeq
  pending : ∀ iid o, v'.pending iid = some o → v.pending iid = some o
  values : ∀ o, (v'.oneshots o).value = (v.oneshots o).value
  registering : v'.phase.registering = none
  proxyCall : ∀ proxy, v'.phase.proxyCall = some proxy → v.phase.proxyCall = some proxy
  result : ∀ proxy payload, v'.phase = .proxyCleanup proxy (.result payload) →
    (v.oneshots proxy.oneshot).value = some payload

theorem dropSender_value (oneshots : Nat → Oneshot) (sender : Option Nat) (o : Nat) :
    (dropSender oneshots sender o).value = (oneshots o).value := by
  cases sender with
  | none => rfl
  | some s =>
    rcases eq_or_ne o s with rfl | hne
    · rw [dropSender, update_self]
    · rw [dropSender, update_of_ne hne]

theorem dropReceiver_value (oneshots : Nat → Oneshot) (receiver o : Nat) :
    (Function.update oneshots receiver { oneshots receiver with receiverAlive := false } o).value =
      (oneshots o).value := by
  rcases eq_or_ne o receiver with rfl | hne
  · rw [update_self]
  · rw [update_of_ne hne]

variable {v v' : TurnView} {w : Nat} {worker : Worker} {flags tokens : Nat → Bool}

private theorem passive_outside (hnext : v'.next = v.next)
    (hseq : v'.entry.runtime.executor.nextSeq = v.entry.runtime.executor.nextSeq)
    (hpend : v'.pending = v.pending) (honeshots : v'.oneshots = v.oneshots)
    (hissued : v'.phase.issued = false) : Passive v v' := by
  refine ⟨hnext, hseq, fun iid o h => ?_, fun o => ?_, Phase.registering_of_not_issued hissued,
    fun proxy h => ?_, fun proxy payload h => ?_⟩
  · rwa [hpend] at h
  · rw [honeshots]
  · rw [Phase.proxyCall_of_not_issued hissued] at h
    cases h
  · rw [h] at hissued
    cases hissued

/-- What `afterCleanup` goes on with is outside the proxy call. -/
theorem afterCleanup_not_issued (proxy : ProxyCall) (outcome : ProxyOutcome) :
    (afterCleanup proxy outcome).issued = false := by
  cases outcome <;> rfl

theorem cleanup_passive (v : TurnView) (proxy : ProxyCall) (outcome : ProxyOutcome) :
    Passive v (v.cleanup proxy outcome) := by
  have hissued := afterCleanup_not_issued proxy outcome
  refine ⟨rfl, rfl, fun iid o h => ?_, fun o => ?_, Phase.registering_of_not_issued hissued,
    fun p h => ?_, fun p payload h => ?_⟩
  · change Function.update v.pending proxy.instructionId none iid = some o at h
    rcases eq_or_ne iid proxy.instructionId with rfl | hne
    · rw [update_self] at h
      cases h
    · rwa [update_of_ne hne] at h
  · exact (dropReceiver_value _ _ o).trans (dropSender_value _ _ o)
  · change (afterCleanup proxy outcome).proxyCall = some p at h
    rw [Phase.proxyCall_of_not_issued hissued] at h
    cases h
  · change afterCleanup proxy outcome = _ at h
    rw [h] at hissued
    cases hissued

theorem panicked_passive (v : TurnView) (message : String) :
    Passive v (v.panicked message) := by
  refine ⟨rfl, rfl, fun _ _ h => h, fun o => ?_, rfl, fun proxy h => ?_, fun proxy payload h => ?_⟩
  · rcases hreceiver : v.phase.receiver with - | receiver
    · simp only [panicked, hreceiver]
    · simp only [panicked, hreceiver]
      exact dropReceiver_value _ _ o
  · cases h
  · cases h

theorem Effect.proxy (h : Effect v w worker flags tokens act v') :
    Passive v v' ∨ (∃ call, v.phase = .proxyEntry call ∧ v' = v.issue call) ∨
      ∃ call iid, act = .register ∧ v.phase = .proxyRegister call iid ∧
        v' = v.register call iid := by
  cases h with
  | acquire _ => exact .inl (passive_outside rfl rfl rfl rfl rfl)
  | move _ _ _ _ hplain => exact .inl (passive_outside rfl rfl rfl rfl hplain.issued)
  | cancelled _ _ => exact .inl (passive_outside rfl rfl rfl rfl rfl)
  | push m stamps _ _ _ hplain =>
    exact .inl (passive_outside rfl rfl rfl rfl (push_plain v m stamps hplain).issued)
  | issue hphase => exact .inr (.inl ⟨_, hphase, rfl⟩)
  | register hphase => exact .inr (.inr ⟨_, _, rfl, hphase, rfl⟩)
  | dispatch _ hphase hp =>
    left
    rcases hp with rfl | rfl
    · refine ⟨rfl, rfl, fun _ _ h => h, fun _ => rfl, rfl, fun proxy h => ?_, fun _ _ h => ?_⟩
      · rw [hphase]
        exact h
      · cases h
    · refine ⟨rfl, rfl, fun _ _ h => h, fun _ => rfl, rfl, fun proxy h => ?_, fun _ _ h => ?_⟩
      · rw [hphase]
        exact h
      · cases h
  | leave _ hphase hres =>
    left
    refine ⟨rfl, rfl, fun _ _ h => h, dropReceiver_value _ _, rfl, fun proxy h => ?_,
      fun proxy payload h => ?_⟩
    · rw [hphase]
      exact h
    · cases h
      exact hres payload rfl
  | cleanup hphase => exact .inl (cleanup_passive v _ _)
  | compact hphase => exact .inl (passive_outside rfl rfl rfl rfl rfl)
  | panicked _ => exact .inl (panicked_passive v _)
  | checkpointed _ => exact .inl (passive_outside rfl rfl rfl rfl rfl)
  | metaLoaded _ => exact .inl (passive_outside rfl rfl rfl rfl rfl)
  | metaSaved _ => exact .inl (passive_outside rfl rfl rfl rfl rfl)
  | replied _ => exact .inl (passive_outside rfl rfl rfl rfl rfl)

/-- A `register` step finds an id that is taken and not registered. -/
theorem Effect.register_cases (h : Effect v w worker flags tokens act v') (hact : act = .register) :
    v.phase.registering = none ∨
      ∃ call iid, v.phase = .proxyRegister call iid ∧ v' = v.register call iid := by
  cases h with
  | move _ _ _ hissued _ => exact .inl (Phase.registering_of_not_issued hissued)
  | push _ _ _ _ hissued _ => exact .inl (Phase.registering_of_not_issued hissued)
  | register hphase => exact .inr ⟨_, _, hphase, rfl⟩
  | leave _ hphase _ =>
    left
    rw [hphase]
    rfl
  | _ => cases hact

end TurnView

/-- An issued instruction: its id, the runtime whose proxy call issued it, and
the channel the call awaits. -/
structure Issue where
  sessionId : String
  instructionId : String
  entry : Nat
  oneshot : Nat
  deriving DecidableEq

def issuesOf (k : Kernel) : Action → List Issue
  | .turn w .register =>
    match k.workers w with
    | none => []
    | some worker =>
      match worker.phase.registering, k.entries worker.entry with
      | some iid, some e => [⟨e.runtime.executor.sessionId, iid, worker.entry, k.next⟩]
      | _, _ => []
  | _ => []

/-- The state shared under a session id belongs to the runtime last built for
it. -/
structure Homed (k : Kernel) : Prop where
  wired : Wired k
  home : ∀ sid s, k.shared sid = some s →
    ∃ e, k.entries s.pendingProxy = some e ∧ e.runtime.executor.sessionId = sid
  newest : ∀ r e s, k.entries r = some e →
    k.shared e.runtime.executor.sessionId = some s → r ≤ s.pendingProxy

variable {k k' : Kernel}

theorem Quiet.executorId {r : Nat} {e' : SessionEntry} (hq : Quiet k k')
    (he' : k'.entries r = some e') :
    ∃ e, k.entries r = some e ∧
      e'.runtime.executor.sessionId = e.runtime.executor.sessionId := by
  obtain ⟨e, he, hwiring⟩ := hq.entry he'
  exact ⟨e, he, congrArg Wiring.executorId hwiring⟩

theorem Homed.quiet (h : Homed k) (hq : Quiet k k') : Homed k' := by
  refine ⟨hq.wired h.wired, fun sid s hs => ?_, fun r e' s he' hs => ?_⟩
  · rw [hq.shared] at hs
    obtain ⟨e, he, hid⟩ := h.home sid s hs
    obtain ⟨e', he', hwiring⟩ := hq.entry' he
    exact ⟨e', he', (congrArg Wiring.executorId hwiring).trans hid⟩
  · rw [hq.shared] at hs
    obtain ⟨e, he, hid⟩ := hq.executorId he'
    rw [hid] at hs
    exact h.newest r e s he hs

theorem Homed.withDisk (h : Homed k) (disk : SessionTree) :
    Homed { k with disk } :=
  ⟨Kernel.withDisk_wired h.wired disk, h.home, h.newest⟩

theorem Homed.install (h : Homed k) (key : String) (session : Session) (record : SessionRecord)
    (maxIterations : Option Nat) (channels msgCount : Nat) (stamps : SaveStamps) :
    Homed (k.install key session record maxIterations channels msgCount stamps) := by
  refine ⟨Kernel.install_wired h.wired .., fun sid s hs => ?_, fun r e s he hs => ?_⟩
  · change Function.update k.shared session.sessionId (some ⟨k.next, k.next, k.next⟩) sid = _ at hs
    rw [Kernel.install_entries]
    rcases update_eq_some hs with ⟨rfl, hnew⟩ | ⟨-, hs⟩
    · cases hnew
      exact ⟨_, update_self .., rfl⟩
    · obtain ⟨e, he, hid⟩ := h.home sid s hs
      have hlt := (h.wired.entry _ e he).1
      rw [update_of_ne (by omega)]
      exact ⟨e, he, hid⟩
  · change Function.update k.shared session.sessionId (some ⟨k.next, k.next, k.next⟩) _ = _ at hs
    rw [Kernel.install_entries] at he
    rcases update_eq_some he with ⟨rfl, hnew⟩ | ⟨-, he⟩
    · cases hnew
      change Function.update k.shared session.sessionId _ session.sessionId = _ at hs
      rw [update_self] at hs
      cases hs
      exact Nat.le_refl _
    · have hlt := (h.wired.entry r e he).1
      rcases eq_or_ne e.runtime.executor.sessionId session.sessionId with hid | hid
      · rw [hid, update_self] at hs
        cases hs
        exact Nat.le_of_lt hlt
      · rw [update_of_ne hid] at hs
        exact h.newest r e s he hs

theorem Homed.runTurnStreaming (h : Homed k) (sid text : String) (ctx : Option String) :
    Homed (k.runTurnStreaming sid text ctx) := by
  refine ⟨Kernel.runTurnStreaming_wired h.wired sid text ctx, fun sid' s hs => ?_,
    fun r e s he hs => ?_⟩
  · obtain ⟨old, hold, hpend, -⟩ := Kernel.runTurnStreaming_shared hs
    rw [Kernel.runTurnStreaming_entries, hpend]
    exact h.home sid' old hold
  · obtain ⟨old, hold, hpend, -⟩ := Kernel.runTurnStreaming_shared hs
    rw [Kernel.runTurnStreaming_entries] at he
    rw [hpend]
    exact h.newest r e old he hold

theorem Homed.remove (h : Homed k) (sid : String) : Homed (k.remove sid) := by
  have hback : ∀ sid' s, (k.remove sid).shared sid' = some s → k.shared sid' = some s := by
    intro sid' s hs
    change Function.update k.shared sid none sid' = _ at hs
    rcases eq_or_ne sid' sid with rfl | hne
    · rw [update_self] at hs
      cases hs
    · rwa [update_of_ne hne] at hs
  refine ⟨Kernel.remove_wired h.wired sid, fun sid' s hs => h.home sid' s (hback sid' s hs),
    fun r e s he hs => h.newest r e s he (hback _ s hs)⟩

/-- What the issued instructions and the workers keep. `taken` is about ids that
are not registered yet. -/
structure IssueInv (issues : List Issue) (k : Kernel) : Prop where
  homed : Homed k
  below : ∀ i ∈ issues, i.entry < k.next ∧ i.oneshot < k.next
  oneshotOnce : ∀ i ∈ issues, ∀ j ∈ issues, i.oneshot = j.oneshot → i = j
  idOnce : ∀ i ∈ issues, ∀ j ∈ issues, i.entry = j.entry →
    i.instructionId = j.instructionId → i = j
  newest : ∀ i ∈ issues, ∀ s, k.shared i.sessionId = some s → i.entry ≤ s.pendingProxy
  minted : ∀ i ∈ issues, ∀ e, k.entries i.entry = some e →
    i.sessionId = e.runtime.executor.sessionId ∧ ∃ n ≤ e.runtime.executor.nextSeq,
      i.instructionId = instructionIdOf e.runtime.executor.sessionId n
  taken : ∀ w worker iid e, k.workers w = some worker → worker.phase.registering = some iid →
    k.entries worker.entry = some e →
    (∃ n ≤ e.runtime.executor.nextSeq,
      iid = instructionIdOf e.runtime.executor.sessionId n) ∧
    ∀ i ∈ issues, i.entry = worker.entry → i.instructionId ≠ iid
  takenOnce : ∀ w w' worker worker' iid, k.workers w = some worker →
    k.workers w' = some worker' → worker.entry = worker'.entry →
    worker.phase.registering = some iid → worker'.phase.registering = some iid → w = w'
  called : ∀ w worker proxy, k.workers w = some worker → worker.phase.proxyCall = some proxy →
    ∃ i ∈ issues, i.entry = worker.entry ∧ i.instructionId = proxy.instructionId ∧
      i.oneshot = proxy.oneshot

theorem instructionIdOf_injective {sid : String} {m n : Nat}
    (h : instructionIdOf sid m = instructionIdOf sid n) : m = n :=
  Nat.repr_injective ((String.append_right_inj _).mp h)

variable {issues : List Issue}

theorem IssueInv.start (disk : SessionTree) (backend : SessionBackend) :
    IssueInv [] (.start disk backend) := by
  have hhomed : Homed (.start disk backend) :=
    ⟨Kernel.wired_start disk backend, by simp [Kernel.start], by simp [Kernel.start]⟩
  refine ⟨hhomed, ?_, ?_, ?_, ?_, ?_, ?_, ?_, ?_⟩ <;> simp [Kernel.start]

theorem IssueInv.aside (h : IssueInv issues k) (hq : Aside k k') :
    IssueInv issues k' := by
  have hnext := hq.next
  refine ⟨h.homed.quiet hq.quiet, fun i hi => ?_, h.oneshotOnce, h.idOnce, ?_, ?_, ?_, ?_, ?_⟩
  · obtain ⟨hentry, honeshot⟩ := h.below i hi
    exact ⟨by omega, by omega⟩
  · rw [hq.shared]
    exact h.newest
  · rw [hq.entries]
    exact h.minted
  · rw [hq.entries, hq.workers]
    exact h.taken
  · rw [hq.workers]
    exact h.takenOnce
  · rw [hq.workers]
    exact h.called

theorem IssueInv.withDisk (h : IssueInv issues k) (disk : SessionTree) :
    IssueInv issues { k with disk } :=
  ⟨h.homed.withDisk disk, h.below, h.oneshotOnce, h.idOnce, h.newest, h.minted, h.taken,
    h.takenOnce, h.called⟩

theorem IssueInv.install (h : IssueInv issues k) (key : String) (session : Session)
    (record : SessionRecord) (maxIterations : Option Nat) (channels msgCount : Nat)
    (stamps : SaveStamps) :
    IssueInv issues (k.install key session record maxIterations channels msgCount stamps) := by
  refine ⟨h.homed.install .., fun i hi => ?_, h.oneshotOnce, h.idOnce, fun i hi s hs => ?_,
    fun i hi e he => ?_, fun w worker iid e hworker hiid he => ?_, h.takenOnce, h.called⟩
  · obtain ⟨hentry, honeshot⟩ := h.below i hi
    exact ⟨Nat.lt_succ_of_lt hentry, Nat.lt_succ_of_lt honeshot⟩
  · change Function.update k.shared session.sessionId (some ⟨k.next, k.next, k.next⟩) _ = _ at hs
    rcases eq_or_ne i.sessionId session.sessionId with hid | hid
    · rw [hid, update_self] at hs
      cases hs
      exact Nat.le_of_lt (h.below i hi).1
    · rw [update_of_ne hid] at hs
      exact h.newest i hi s hs
  · have hlt := (h.below i hi).1
    rw [Kernel.install_entries, update_of_ne (by omega)] at he
    exact h.minted i hi e he
  · obtain ⟨-, old, hold⟩ := h.homed.wired.worker w worker hworker
    have hlt := (h.homed.wired.entry _ old hold).1
    rw [Kernel.install_entries, update_of_ne (by omega)] at he
    exact h.taken w worker iid e hworker hiid he

theorem IssueInv.runTurnStreaming (h : IssueInv issues k) (sid text : String)
    (ctx : Option String) :
    IssueInv issues (k.runTurnStreaming sid text ctx) := by
  have hnext := Kernel.runTurnStreaming_next k sid text ctx
  refine ⟨h.homed.runTurnStreaming sid text ctx, fun i hi => ?_, h.oneshotOnce, h.idOnce,
    fun i hi s hs => ?_, ?_, fun w worker iid e hworker hiid he => ?_,
    fun w w' worker worker' iid hworker hworker' hentry hiid hiid' => ?_,
    fun w worker proxy hworker hproxy => ?_⟩
  · obtain ⟨hentry, honeshot⟩ := h.below i hi
    exact ⟨by omega, by omega⟩
  · obtain ⟨old, hold, hpend, -⟩ := Kernel.runTurnStreaming_shared hs
    rw [hpend]
    exact h.newest i hi old hold
  · rw [Kernel.runTurnStreaming_entries]
    exact h.minted
  · rw [Kernel.runTurnStreaming_entries] at he
    rcases Kernel.runTurnStreaming_worker hworker with hold | ⟨-, hqueued⟩
    · exact h.taken w worker iid e hold hiid he
    · rw [hqueued] at hiid
      cases hiid
  · rcases Kernel.runTurnStreaming_worker hworker with hold | ⟨-, hqueued⟩
    · rcases Kernel.runTurnStreaming_worker hworker' with hold' | ⟨-, hqueued'⟩
      · exact h.takenOnce w w' worker worker' iid hold hold' hentry hiid hiid'
      · rw [hqueued'] at hiid'
        cases hiid'
    · rw [hqueued] at hiid
      cases hiid
  · rcases Kernel.runTurnStreaming_worker hworker with hold | ⟨-, hqueued⟩
    · exact h.called w worker proxy hold hproxy
    · rw [hqueued] at hproxy
      cases hproxy

theorem IssueInv.remove (h : IssueInv issues k) (sid : String) :
    IssueInv issues (k.remove sid) := by
  refine ⟨h.homed.remove sid, h.below, h.oneshotOnce, h.idOnce, fun i hi s hs => ?_, h.minted,
    h.taken, h.takenOnce, h.called⟩
  change Function.update k.shared sid none i.sessionId = _ at hs
  rcases eq_or_ne i.sessionId sid with hid | hid
  · rw [hid, update_self] at hs
    cases hs
  · rw [update_of_ne hid] at hs
    exact h.newest i hi s hs

theorem IssueInv.restart (h : IssueInv issues k) : IssueInv issues k.restart := by
  have hwired : Wired k.restart := Kernel.step_wired (a := .restart) rfl h.homed.wired
  have hhomed : Homed k.restart :=
    ⟨hwired, by simp [Kernel.restart, Kernel.start], by simp [Kernel.restart, Kernel.start]⟩
  refine ⟨hhomed, h.below, h.oneshotOnce, h.idOnce, ?_, ?_, ?_, ?_, ?_⟩ <;>
    simp [Kernel.restart, Kernel.start]

section Turn

variable {k : Kernel} {w : Nat} {worker : Worker} {entry : SessionEntry} {v' : TurnView}

variable {e' : SessionEntry} {iid : String} {call : ToolCall}

theorem put_seq (hentry : k.entries worker.entry = some entry) (hq : Quiet k (k.put w worker v'))
    (hseq : entry.runtime.executor.nextSeq ≤ v'.entry.runtime.executor.nextSeq) {r : Nat}
    (he' : (k.put w worker v').entries r = some e') :
    ∃ e, k.entries r = some e ∧
      e'.runtime.executor.sessionId = e.runtime.executor.sessionId ∧
      e.runtime.executor.nextSeq ≤ e'.runtime.executor.nextSeq := by
  obtain ⟨e, he, hid⟩ := hq.executorId he'
  refine ⟨e, he, hid, ?_⟩
  rcases Kernel.put_entry he' with ⟨rfl, rfl⟩ | ⟨-, hold⟩
  · rw [hentry] at he
    cases he
    exact hseq
  · rw [hold] at he
    cases he
    exact Nat.le_refl _

theorem IssueInv.minted_put (h : IssueInv issues k) (hentry : k.entries worker.entry = some entry)
    (hq : Quiet k (k.put w worker v'))
    (hseq : entry.runtime.executor.nextSeq ≤ v'.entry.runtime.executor.nextSeq) :
    ∀ i ∈ issues, ∀ e, (k.put w worker v').entries i.entry = some e →
      i.sessionId = e.runtime.executor.sessionId ∧ ∃ n ≤ e.runtime.executor.nextSeq,
        i.instructionId = instructionIdOf e.runtime.executor.sessionId n := by
  intro i hi e' he'
  obtain ⟨e, he, hid, hle⟩ := put_seq hentry hq hseq he'
  obtain ⟨hsid, n, hn, hiid⟩ := h.minted i hi e he
  rw [hid]
  exact ⟨hsid, n, Nat.le_trans hn hle, hiid⟩

theorem IssueInv.taken_put (h : IssueInv issues k) (hentry : k.entries worker.entry = some entry)
    (hq : Quiet k (k.put w worker v'))
    (hseq : entry.runtime.executor.nextSeq ≤ v'.entry.runtime.executor.nextSeq) {w' : Nat}
    {other : Worker} (hother : k.workers w' = some other)
    (hiid : other.phase.registering = some iid)
    (he' : (k.put w worker v').entries other.entry = some e') :
    (∃ n ≤ e'.runtime.executor.nextSeq,
      iid = instructionIdOf e'.runtime.executor.sessionId n) ∧
    ∀ i ∈ issues, i.entry = other.entry → i.instructionId ≠ iid := by
  obtain ⟨e, he, hid, hle⟩ := put_seq hentry hq hseq he'
  obtain ⟨⟨n, hn, hiid'⟩, hfree⟩ := h.taken w' other iid e hother hiid he
  rw [hid]
  exact ⟨⟨n, Nat.le_trans hn hle, hiid'⟩, hfree⟩

theorem IssueInv.passive (h : IssueInv issues k) (hworker : k.workers w = some worker)
    (hentry : k.entries worker.entry = some entry) (hq : Quiet k (k.put w worker v'))
    (hv : TurnView.Passive (k.view worker entry) v') : IssueInv issues (k.put w worker v') := by
  have hseq : entry.runtime.executor.nextSeq ≤ v'.entry.runtime.executor.nextSeq :=
    Nat.le_of_eq hv.nextSeq.symm
  have hself : ∀ iid, v'.phase.registering ≠ some iid := by
    intro iid hiid
    rw [hv.registering] at hiid
    cases hiid
  have hnext := hq.next
  refine ⟨h.homed.quiet hq, fun i hi => ?_, h.oneshotOnce, h.idOnce, h.newest,
    h.minted_put hentry hq hseq, fun w' other iid e hother hiid he => ?_,
    fun w₁ w₂ worker₁ worker₂ iid h₁ h₂ hsame hiid₁ hiid₂ => ?_,
    fun w' other proxy hother hproxy => ?_⟩
  · obtain ⟨hlt, hlt'⟩ := h.below i hi
    exact ⟨by omega, by omega⟩
  · rcases Kernel.put_worker hother with ⟨rfl, rfl⟩ | ⟨-, hold⟩
    · exact absurd hiid (hself iid)
    · exact h.taken_put hentry hq hseq hold hiid he
  · rcases Kernel.put_worker h₁ with ⟨rfl, rfl⟩ | ⟨-, hold₁⟩
    · exact absurd hiid₁ (hself iid)
    · rcases Kernel.put_worker h₂ with ⟨rfl, rfl⟩ | ⟨-, hold₂⟩
      · exact absurd hiid₂ (hself iid)
      · exact h.takenOnce w₁ w₂ worker₁ worker₂ iid hold₁ hold₂ hsame hiid₁ hiid₂
  · rcases Kernel.put_worker hother with ⟨rfl, rfl⟩ | ⟨-, hold⟩
    · exact h.called w' worker proxy hworker (hv.proxyCall proxy hproxy)
    · exact h.called w' other proxy hold hproxy

theorem IssueInv.take (h : IssueInv issues k) (hentry : k.entries worker.entry = some entry)
    (hq : Quiet k (k.put w worker ((k.view worker entry).issue call))) :
    IssueInv issues (k.put w worker ((k.view worker entry).issue call)) := by
  have hseq : entry.runtime.executor.nextSeq ≤
      ((k.view worker entry).issue call).entry.runtime.executor.nextSeq := Nat.le_succ _
  have hbound : ∀ {n : Nat}, n ≤ entry.runtime.executor.nextSeq →
      instructionIdOf entry.runtime.executor.sessionId n ≠
        instructionIdOf entry.runtime.executor.sessionId (entry.runtime.executor.nextSeq + 1) := by
    intro n hn heq
    have hsucc := instructionIdOf_injective heq
    omega
  have hother : ∀ w' other iid, k.workers w' = some other → other.entry = worker.entry →
      other.phase.registering = some iid → iid ≠
        instructionIdOf entry.runtime.executor.sessionId (entry.runtime.executor.nextSeq + 1) := by
    intro w' other iid hold hsame hiid
    obtain ⟨⟨n, hn, rfl⟩, -⟩ := h.taken w' other iid entry hold hiid (hsame ▸ hentry)
    exact hbound hn
  have hnext := hq.next
  refine ⟨h.homed.quiet hq, fun i hi => ?_, h.oneshotOnce, h.idOnce, h.newest,
    h.minted_put hentry hq hseq, fun w' other iid e hw' hiid he => ?_,
    fun w₁ w₂ worker₁ worker₂ iid h₁ h₂ hsame hiid₁ hiid₂ => ?_,
    fun w' other proxy hw' hproxy => ?_⟩
  · obtain ⟨hlt, hlt'⟩ := h.below i hi
    exact ⟨by omega, by omega⟩
  · rcases Kernel.put_worker hw' with ⟨rfl, rfl⟩ | ⟨-, hold⟩
    · cases hiid
      rcases Kernel.put_entry he with ⟨-, rfl⟩ | ⟨hne, -⟩
      · refine ⟨⟨entry.runtime.executor.nextSeq + 1, Nat.le_refl _, rfl⟩, fun i hi hown heq => ?_⟩
        obtain ⟨-, n, hn, hiid'⟩ := h.minted i hi entry (hown ▸ hentry)
        exact hbound hn (hiid'.symm.trans heq)
      · exact absurd rfl hne
    · exact h.taken_put hentry hq hseq hold hiid he
  · rcases Kernel.put_worker h₁ with ⟨rfl, rfl⟩ | ⟨-, hold₁⟩ <;>
      rcases Kernel.put_worker h₂ with ⟨rfl, rfl⟩ | ⟨-, hold₂⟩
    · rfl
    · cases hiid₁
      exact absurd rfl (hother w₂ worker₂ _ hold₂ hsame.symm hiid₂)
    · cases hiid₂
      exact absurd rfl (hother w₁ worker₁ _ hold₁ hsame hiid₁)
    · exact h.takenOnce w₁ w₂ worker₁ worker₂ iid hold₁ hold₂ hsame hiid₁ hiid₂
  · rcases Kernel.put_worker hw' with ⟨rfl, rfl⟩ | ⟨-, hold⟩
    · cases hproxy
    · exact h.called w' other proxy hold hproxy

theorem IssueInv.register (h : IssueInv issues k) (hworker : k.workers w = some worker)
    (hentry : k.entries worker.entry = some entry) (hphase : worker.phase = .proxyRegister call iid)
    (hq : Quiet k (k.put w worker ((k.view worker entry).register call iid))) :
    IssueInv (issues ++ [⟨entry.runtime.executor.sessionId, iid, worker.entry, k.next⟩])
      (k.put w worker ((k.view worker entry).register call iid)) := by
  have hseq : entry.runtime.executor.nextSeq ≤
      ((k.view worker entry).register call iid).entry.runtime.executor.nextSeq := Nat.le_refl _
  have htaken : worker.phase.registering = some iid := by
    rw [hphase]
    rfl
  obtain ⟨⟨n, hn, hiid⟩, hfree⟩ := h.taken w worker iid entry hworker htaken hentry
  have hlt := (h.homed.wired.entry _ entry hentry).1
  refine ⟨h.homed.quiet hq, fun i hi => ?_, fun i hi j hj heq => ?_, fun i hi j hj hsame heq => ?_,
    fun i hi s hs => ?_, fun i hi e he => ?_, fun w' other iid' e hw' hiid' he => ?_,
    fun w₁ w₂ worker₁ worker₂ iid' h₁ h₂ hsame hiid₁ hiid₂ => ?_,
    fun w' other proxy hw' hproxy => ?_⟩
  · change i.entry < k.next + 1 ∧ i.oneshot < k.next + 1
    rcases mem_append.mp hi with hold | hnew
    · obtain ⟨hown, honeshot⟩ := h.below i hold
      exact ⟨Nat.lt_succ_of_lt hown, Nat.lt_succ_of_lt honeshot⟩
    · cases mem_singleton.mp hnew
      exact ⟨Nat.lt_succ_of_lt hlt, Nat.lt_succ_self _⟩
  · rcases mem_append.mp hi with hi | hi <;> rcases mem_append.mp hj with hj | hj
    · exact h.oneshotOnce i hi j hj heq
    · cases mem_singleton.mp hj
      exact absurd heq (Nat.ne_of_lt (h.below i hi).2)
    · cases mem_singleton.mp hi
      exact absurd heq.symm (Nat.ne_of_lt (h.below j hj).2)
    · cases mem_singleton.mp hi
      cases mem_singleton.mp hj
      rfl
  · rcases mem_append.mp hi with hi | hi <;> rcases mem_append.mp hj with hj | hj
    · exact h.idOnce i hi j hj hsame heq
    · cases mem_singleton.mp hj
      exact absurd heq (hfree i hi hsame)
    · cases mem_singleton.mp hi
      exact absurd heq.symm (hfree j hj hsame.symm)
    · cases mem_singleton.mp hi
      cases mem_singleton.mp hj
      rfl
  · rcases mem_append.mp hi with hi | hi
    · exact h.newest i hi s hs
    · cases mem_singleton.mp hi
      exact h.homed.newest worker.entry entry s hentry hs
  · rcases mem_append.mp hi with hi | hi
    · exact h.minted_put hentry hq hseq i hi e he
    · cases mem_singleton.mp hi
      rcases Kernel.put_entry he with ⟨-, rfl⟩ | ⟨hne, -⟩
      · exact ⟨rfl, n, hn, hiid⟩
      · exact absurd rfl hne
  · rcases Kernel.put_worker hw' with ⟨rfl, rfl⟩ | ⟨hne, hold⟩
    · cases hiid'
    · obtain ⟨hmint, hfree'⟩ := h.taken_put hentry hq hseq hold hiid' he
      refine ⟨hmint, fun i hi hown heq => ?_⟩
      rcases mem_append.mp hi with hi | hi
      · exact hfree' i hi hown heq
      · cases mem_singleton.mp hi
        cases heq
        exact hne (h.takenOnce w' w other worker iid hold hworker hown.symm hiid' htaken)
  · rcases Kernel.put_worker h₁ with ⟨rfl, rfl⟩ | ⟨-, hold₁⟩
    · cases hiid₁
    · rcases Kernel.put_worker h₂ with ⟨rfl, rfl⟩ | ⟨-, hold₂⟩
      · cases hiid₂
      · exact h.takenOnce w₁ w₂ worker₁ worker₂ iid' hold₁ hold₂ hsame hiid₁ hiid₂
  · rcases Kernel.put_worker hw' with ⟨rfl, rfl⟩ | ⟨-, hold⟩
    · cases hproxy
      exact ⟨_, mem_append_right _ (mem_singleton_self _), rfl, rfl, rfl⟩
    · obtain ⟨i, hi, hfacts⟩ := h.called w' other proxy hold hproxy
      exact ⟨i, mem_append_left _ hi, hfacts⟩

end Turn

theorem issuesOf_turn {worker : Worker} (hworker : k.workers w = some worker)
    (h : act ≠ .register ∨ worker.phase.registering = none) :
    issuesOf k (.turn w act) = [] := by
  unfold issuesOf
  split
  · rename_i heq
    cases heq
    rw [hworker]
    rcases h with hne | hnone
    · exact absurd rfl hne
    · dsimp only
      rw [hnone]
  · rfl

theorem turn_issues (hstep : k.turn w act = some k') :
    ∃ worker entry v', k.workers w = some worker ∧ k.entries worker.entry = some entry ∧
      k' = k.put w worker v' ∧
      ((TurnView.Passive (k.view worker entry) v' ∧ issuesOf k (.turn w act) = []) ∨
        (∃ call, v' = (k.view worker entry).issue call ∧ issuesOf k (.turn w act) = []) ∨
        ∃ call iid, worker.phase = .proxyRegister call iid ∧
          v' = (k.view worker entry).register call iid ∧ issuesOf k (.turn w act) =
            [⟨entry.runtime.executor.sessionId, iid, worker.entry, k.next⟩]) := by
  obtain ⟨worker, entry, v', hworker, hentry, heffect, rfl⟩ := Kernel.turn_cases hstep
  refine ⟨worker, entry, v', hworker, hentry, rfl, ?_⟩
  rcases heffect.proxy with hv | ⟨call, hphase, rfl⟩ | ⟨call, iid, rfl, hphase, rfl⟩
  · left
    refine ⟨hv, issuesOf_turn hworker ?_⟩
    rcases eq_or_ne act .register with hact | hact
    · rcases heffect.register_cases hact with hnone | ⟨call, iid, -, rfl⟩
      · exact .inr hnone
      · exact absurd hv.next (Nat.succ_ne_self _)
    · exact .inl hact
  · right; left
    refine ⟨call, rfl, issuesOf_turn hworker (.inr ?_)⟩
    have hphase' : worker.phase = .proxyEntry call := hphase
    rw [hphase']
    rfl
  · right; right
    have hphase' : worker.phase = .proxyRegister call iid := hphase
    refine ⟨call, iid, hphase', rfl, ?_⟩
    simp only [issuesOf, hworker, hphase', hentry, Phase.registering]

theorem issuesOf_aside (ha : a.isAside = true) : issuesOf k a = [] := by
  cases a <;> first | rfl | cases ha

theorem IssueInv.step (h : IssueInv issues k) (hstep : k.step a = some k') :
    IssueInv (issues ++ issuesOf k a) k' := by
  have hsame : issuesOf k a = [] → IssueInv issues k' → IssueInv (issues ++ issuesOf k a) k' := by
    intro hnone hinv
    rwa [hnone, append_nil]
  cases a using Action.byKind with
  | create req stamps =>
    cases hstep
    exact hsame rfl ((h.withDisk _).install ..)
  | resume req stamps =>
    cases hstep
    apply hsame rfl
    rcases hsession : k.sessions req.sessionId with - | handle
    · obtain ⟨record, hbuilt⟩ := Kernel.resume_builds hsession stamps
      rw [hbuilt]
      exact (h.withDisk _).install ..
    · rw [Kernel.resume_live hsession stamps]
      exact h
  | runTurnStreaming sid text ctx =>
    cases hstep
    exact hsame rfl (h.runTurnStreaming sid text ctx)
  | remove sid =>
    cases hstep
    exact hsame rfl (h.remove sid)
  | restart =>
    cases hstep
    exact hsame rfl h.restart
  | turn w act =>
    have hq := Kernel.turn_quiet hstep
    obtain ⟨worker, entry, v', hworker, hentry, rfl, ⟨hv, hnone⟩ | ⟨call, rfl, hnone⟩ |
      ⟨call, iid, hphase, rfl, hissue⟩⟩ := turn_issues hstep
    · exact hsame hnone (h.passive hworker hentry hq hv)
    · exact hsame hnone (h.take hentry hq)
    · rw [hissue]
      exact h.register hworker hentry hphase hq
  | aside a haside =>
    exact hsame (issuesOf_aside haside) (h.aside (Kernel.step_aside hstep haside))

end DbClinic.Server
