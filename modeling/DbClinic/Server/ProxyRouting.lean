import DbClinic.Server.Instructions

/-!
The routing of proxy results. A history logs the instructions that were issued,
which instruction each result is meant for, and which delivery reached which
channel. A result reaches the call it is meant for as long as no runtime built
later for the same session id has issued the same instruction id by the time the
result is looked up.
-/

namespace DbClinic.Server

open DbClinic.Runtime Persistence Transition List Function

/-- The fields after the first are history. `target` is the instruction the
operator answers with a call of `deliver_proxy_result`, and `sends` pairs the
calls that returned `true` with the channels they sent on. -/
structure RoutingHistory where
  kernel : Kernel
  issues : List Issue
  target : Nat → Option Issue
  sends : List (Nat × Nat)

/-- A step of the kernel, or the operator's answer to the `issue`-th
instruction. Calls of `deliver_proxy_result` with made-up ids are steps of the
kernel. -/
inductive RoutingAction where
  | kernel (a : Action)
  | answer (issue : Nat) (payload : ProxyResultPayload)

def sendsOf (k : Kernel) : Action → List (Nat × Nat)
  | .deliverSend d =>
    match (k.delivers d).map DeliverCall.stage with
    | some (.taken o) => if (k.oneshots o).receiverAlive then [(d, o)] else []
    | _ => []
  | _ => []

def sendsAfter (k : Kernel) (sends : List (Nat × Nat)) : Action → List (Nat × Nat)
  | .restart => []
  | a => sends ++ sendsOf k a

def targetAfter (k : Kernel) (target : Nat → Option Issue) : Action → Nat → Option Issue
  | .restart => fun _ => none
  | .deliverCall _ _ _ => Function.update target k.next none
  | _ => target

def RoutingHistory.step (h : RoutingHistory) : RoutingAction → Option RoutingHistory
  | .kernel a =>
    (h.kernel.step a).map fun k' =>
      ⟨k', h.issues ++ issuesOf h.kernel a, targetAfter h.kernel h.target a,
        sendsAfter h.kernel h.sends a⟩
  | .answer n payload =>
    (h.issues[n]?).map fun issue =>
      ⟨h.kernel.deliverCall issue.sessionId issue.instructionId payload, h.issues,
        Function.update h.target h.kernel.next (some issue), h.sends⟩

def RoutingHistory.start (disk : SessionTree) (backend : SessionBackend) : RoutingHistory :=
  ⟨.start disk backend, [], fun _ => none, []⟩

/-- The instruction a call that reached the channel `o` was for: it was issued
under the ids of the call, its channel is `o`, and it is the one the operator
answered. -/
def Meant (h : RoutingHistory) (d : Nat) (call : DeliverCall) (o : Nat) : Prop :=
  ∃ i ∈ h.issues, i.sessionId = call.sessionId ∧ i.instructionId = call.instructionId ∧
    i.oneshot = o ∧ ∀ t, h.target d = some t → t = i

structure Routed (h : RoutingHistory) : Prop where
  delivered : ∀ d call, h.kernel.delivers d = some call → call.stage = .returned true →
    ∃ o, (d, o) ∈ h.sends ∧ (∀ o', (d, o') ∈ h.sends → o' = o) ∧ Meant h d call o ∧
      (h.kernel.oneshots o).value = some call.payload
  once : ∀ d d' o, (d, o) ∈ h.sends → (d', o) ∈ h.sends → d = d'
  answered : ∀ w worker proxy payload, h.kernel.workers w = some worker →
    worker.phase = .proxyCleanup proxy (.result payload) →
    ∃ d call, (d, proxy.oneshot) ∈ h.sends ∧ h.kernel.delivers d = some call ∧
      call.stage = .returned true ∧ call.payload = payload ∧
      call.instructionId = proxy.instructionId ∧ Meant h d call proxy.oneshot

/-- The call whose result a step looks up in the pending map. -/
def RoutingAction.lookup : RoutingAction → Option Nat
  | .kernel (.deliverTake d) => some d
  | _ => none

/-- A looked-up result is meant for an instruction whose id no runtime built
later for the session has issued again. -/
def NotReissued (h : RoutingHistory) (a : RoutingAction) : Prop :=
  ∀ d ∈ a.lookup, ∀ t ∈ h.target d, ∀ i ∈ h.issues,
    i.sessionId = t.sessionId → i.instructionId = t.instructionId → i.entry ≤ t.entry

instance (h : RoutingHistory) (a : RoutingAction) : Decidable (NotReissued h a) :=
  inferInstanceAs (Decidable (∀ d ∈ a.lookup, ∀ t ∈ h.target d, ∀ i ∈ h.issues, _ → _ → _))

structure RoutingInv (h : RoutingHistory) : Prop where
  issued : IssueInv h.issues h.kernel
  pending : ∀ p iid o, h.kernel.pendings p iid = some o →
    ∃ i ∈ h.issues, i.entry = p ∧ i.instructionId = iid ∧ i.oneshot = o
  call : ∀ d call, h.kernel.delivers d = some call → d < h.kernel.next ∧
    (∃ e, h.kernel.entries call.pending = some e ∧
      e.runtime.executor.sessionId = call.sessionId) ∧
    ∀ t, h.target d = some t → t ∈ h.issues ∧ t.sessionId = call.sessionId ∧
      t.instructionId = call.instructionId ∧ t.entry ≤ call.pending
  taken : ∀ d call o, h.kernel.delivers d = some call → call.stage = .taken o → Meant h d call o
  takenOnce : ∀ d d' call call' o, h.kernel.delivers d = some call →
    h.kernel.delivers d' = some call' → call.stage = .taken o → call'.stage = .taken o → d = d'
  takenOut : ∀ d call o, h.kernel.delivers d = some call → call.stage = .taken o →
    ∀ p iid, h.kernel.pendings p iid ≠ some o
  sent : ∀ d o, (d, o) ∈ h.sends → ∃ call, h.kernel.delivers d = some call ∧
    call.stage = .returned true ∧ Meant h d call o ∧
    (h.kernel.oneshots o).value = some call.payload
  sentOnce : ∀ d d' o, (d, o) ∈ h.sends → (d', o) ∈ h.sends → d = d'
  sentOnly : ∀ d o o', (d, o) ∈ h.sends → (d, o') ∈ h.sends → o = o'
  sentOut : ∀ d o, (d, o) ∈ h.sends → (∀ p iid, h.kernel.pendings p iid ≠ some o) ∧
    ∀ d' call, h.kernel.delivers d' = some call → call.stage ≠ .taken o
  returned : ∀ d call, h.kernel.delivers d = some call → call.stage = .returned true →
    ∃ o, (d, o) ∈ h.sends
  filled : ∀ o payload, (h.kernel.oneshots o).value = some payload → ∃ d, (d, o) ∈ h.sends
  result : ∀ w worker proxy payload, h.kernel.workers w = some worker →
    worker.phase = .proxyCleanup proxy (.result payload) →
    (h.kernel.oneshots proxy.oneshot).value = some payload

variable {h : RoutingHistory} {d o : Nat} {k' k : Kernel} {call : DeliverCall} {a : Action}

theorem RoutingInv.routed (hinv : RoutingInv h) : Routed h := by
  refine ⟨fun d call hcall hret => ?_, hinv.sentOnce,
    fun w worker proxy payload hworker hphase => ?_⟩
  · obtain ⟨o, ho⟩ := hinv.returned d call hcall hret
    obtain ⟨call', hcall', -, hmeant, hval⟩ := hinv.sent d o ho
    rw [hcall] at hcall'
    cases hcall'
    exact ⟨o, ho, fun o' ho' => hinv.sentOnly d o' o ho' ho, hmeant, hval⟩
  · have hval := hinv.result w worker proxy payload hworker hphase
    obtain ⟨d, hd⟩ := hinv.filled _ payload hval
    obtain ⟨call, hcall, hret, hmeant, hsent⟩ := hinv.sent d _ hd
    have hproxy : worker.phase.proxyCall = some proxy := by
      rw [hphase]
      rfl
    obtain ⟨i, hi, -, hiid, honeshot⟩ := hinv.issued.called w worker proxy hworker hproxy
    obtain ⟨j, hj, hsid, hjid, hjo, htarget⟩ := hmeant
    have hsame := hinv.issued.oneshotOnce i hi j hj (honeshot.trans hjo.symm)
    subst hsame
    rw [hval] at hsent
    exact ⟨d, call, hd, hcall, hret, (Option.some.inj hsent).symm, hjid.symm.trans hiid,
      i, hi, hsid, hjid, honeshot, htarget⟩

theorem RoutingInv.meant_below (hinv : RoutingInv h) (hmeant : Meant h d call o) :
    o < h.kernel.next := by
  obtain ⟨i, hi, -, -, rfl, -⟩ := hmeant
  exact (hinv.issued.below i hi).2

theorem RoutingInv.kept (hinv : RoutingInv h) {new : List Issue}
    (hissued : IssueInv (h.issues ++ new) k') (hnext : h.kernel.next ≤ k'.next)
    (hents : ∀ r e, h.kernel.entries r = some e → ∃ e', k'.entries r = some e' ∧
      e'.runtime.executor.sessionId = e.runtime.executor.sessionId)
    (hpendings : ∀ p iid o, k'.pendings p iid = some o → h.kernel.pendings p iid = some o ∨
      (o = h.kernel.next ∧ ∃ i ∈ new, i.entry = p ∧ i.instructionId = iid ∧ i.oneshot = o))
    (hvals : ∀ o, (k'.oneshots o).value = (h.kernel.oneshots o).value)
    (hdelivers : k'.delivers = h.kernel.delivers)
    (hres : ∀ w worker proxy payload, k'.workers w = some worker →
      worker.phase = .proxyCleanup proxy (.result payload) →
      (h.kernel.oneshots proxy.oneshot).value = some payload) :
    RoutingInv ⟨k', h.issues ++ new, h.target, h.sends⟩ := by
  have hmeant : ∀ {d call o}, Meant h d call o →
      Meant ⟨k', h.issues ++ new, h.target, h.sends⟩ d call o := by
    rintro d call o ⟨i, hi, hfacts⟩
    exact ⟨i, mem_append_left _ hi, hfacts⟩
  have hout : ∀ {o}, (∀ p iid, h.kernel.pendings p iid ≠ some o) → o < h.kernel.next →
      ∀ p iid, k'.pendings p iid ≠ some o := by
    intro o hfree hlt p iid hpend
    rcases hpendings p iid o hpend with hold | ⟨hnew, -⟩
    · exact hfree p iid hold
    · omega
  constructor
  case issued => exact hissued
  case pending =>
    intro p iid o hpend
    rcases hpendings p iid o hpend with hold | ⟨-, i, hi, hfacts⟩
    · obtain ⟨i, hi, hfacts⟩ := hinv.pending p iid o hold
      exact ⟨i, mem_append_left _ hi, hfacts⟩
    · exact ⟨i, mem_append_right _ hi, hfacts⟩
  case call =>
    intro d call hcall
    change k'.delivers d = some call at hcall
    rw [hdelivers] at hcall
    obtain ⟨hlt, ⟨e, he, hid⟩, htarget⟩ := hinv.call d call hcall
    obtain ⟨e', he', hid'⟩ := hents _ e he
    refine ⟨Nat.lt_of_lt_of_le hlt hnext, ⟨e', he', hid'.trans hid⟩, fun t ht => ?_⟩
    obtain ⟨hmem, hfacts⟩ := htarget t ht
    exact ⟨mem_append_left _ hmem, hfacts⟩
  case taken =>
    intro d call o hcall hstage
    change k'.delivers d = some call at hcall
    rw [hdelivers] at hcall
    exact hmeant (hinv.taken d call o hcall hstage)
  case takenOnce =>
    change ∀ d d' call call' o, k'.delivers d = some call → k'.delivers d' = some call' → _
    rw [hdelivers]
    exact hinv.takenOnce
  case takenOut =>
    intro d call o hcall hstage
    change k'.delivers d = some call at hcall
    rw [hdelivers] at hcall
    exact hout (hinv.takenOut d call o hcall hstage)
      (hinv.meant_below (hinv.taken d call o hcall hstage))
  case sent =>
    intro d o ho
    obtain ⟨call, hcall, hret, hm, hval⟩ := hinv.sent d o ho
    refine ⟨call, ?_, hret, hmeant hm, (hvals o).trans hval⟩
    change k'.delivers d = some call
    rw [hdelivers]
    exact hcall
  case sentOnce => exact hinv.sentOnce
  case sentOnly => exact hinv.sentOnly
  case sentOut =>
    intro d o ho
    obtain ⟨call, -, -, hm, -⟩ := hinv.sent d o ho
    obtain ⟨hfree, hstage⟩ := hinv.sentOut d o ho
    refine ⟨hout hfree (hinv.meant_below hm), ?_⟩
    change ∀ d' call, k'.delivers d' = some call → _
    rw [hdelivers]
    exact hstage
  case returned =>
    change ∀ d call, k'.delivers d = some call → _
    rw [hdelivers]
    exact hinv.returned
  case filled =>
    intro o payload hval
    exact hinv.filled o payload ((hvals o).symm.trans hval)
  case result =>
    intro w worker proxy payload hworker hphase
    exact (hvals _).trans (hres w worker proxy payload hworker hphase)

theorem Quiet.executor_of (hq : Quiet k k') (r : Nat) (e : SessionEntry)
    (he : k.entries r = some e) :
    ∃ e', k'.entries r = some e' ∧
      e'.runtime.executor.sessionId = e.runtime.executor.sessionId := by
  obtain ⟨e', he', hwiring⟩ := hq.entry' he
  exact ⟨e', he', congrArg Wiring.executorId hwiring⟩

theorem put_pending {w p : Nat} {worker : Worker} {v : TurnView} {iid : String}
    (h : (k.put w worker v).pendings p iid = some o) :
    (p = v.entry.runtime.executor.pending ∧ v.pending iid = some o) ∨
      k.pendings p iid = some o := by
  change Function.update k.pendings v.entry.runtime.executor.pending v.pending p iid = _ at h
  rcases eq_or_ne p v.entry.runtime.executor.pending with rfl | hne
  · rw [update_self] at h
    exact .inl ⟨rfl, h⟩
  · rw [update_of_ne hne] at h
    exact .inr h

theorem RoutingInv.fresh_value (hinv : RoutingInv h) :
    (h.kernel.oneshots h.kernel.next).value = none := by
  rcases hval : (h.kernel.oneshots h.kernel.next).value with - | payload
  · rfl
  · obtain ⟨d, hd⟩ := hinv.filled _ payload hval
    obtain ⟨call, hcall, -, hmeant, -⟩ := hinv.sent d _ hd
    exact absurd (hinv.meant_below hmeant) (Nat.lt_irrefl _)

theorem RoutingInv.turn (hinv : RoutingInv h) {w : Nat} {act : TurnAct}
    (hstep : h.kernel.turn w act = some k') :
    RoutingInv ⟨k', h.issues ++ issuesOf h.kernel (.turn w act), h.target, h.sends⟩ := by
  have hissued := hinv.issued.step (a := .turn w act) hstep
  have hq := Kernel.turn_quiet hstep
  obtain ⟨worker, entry, v', hworker, hentry, rfl, hcases⟩ := turn_issues hstep
  have hself : (h.kernel.put w worker v').entries worker.entry = some v'.entry :=
    update_self ..
  have hpend : v'.entry.runtime.executor.pending = entry.runtime.executor.pending := by
    obtain ⟨e, he, hwiring⟩ := hq.entry hself
    rw [hentry] at he
    cases he
    exact congrArg Wiring.pending hwiring
  have hother : ∀ {w' other proxy payload}, (h.kernel.put w worker v').workers w' = some other →
      other.phase = .proxyCleanup proxy (.result payload) →
      (v'.phase = .proxyCleanup proxy (.result payload) →
        (h.kernel.oneshots proxy.oneshot).value = some payload) →
      (h.kernel.oneshots proxy.oneshot).value = some payload := by
    intro w' other proxy payload hw' hphase hown
    rcases Kernel.put_worker hw' with ⟨-, rfl⟩ | ⟨-, hold⟩
    · exact hown hphase
    · exact hinv.result w' other proxy payload hold hphase
  rcases hcases with ⟨hv, -⟩ | ⟨call, rfl, -⟩ | ⟨call, iid, hphase, rfl, hissue⟩
  · apply hinv.kept hissued hq.next hq.executor_of
    · intro p iid o hp
      left
      rcases put_pending hp with ⟨rfl, hv'⟩ | hold
      · rw [hpend]
        exact hv.pending iid o hv'
      · exact hold
    · exact hv.values
    · rfl
    · intro w' other proxy payload hw' hphase
      exact hother hw' hphase (hv.result proxy payload)
  · apply hinv.kept hissued hq.next hq.executor_of
    · intro p iid o hp
      left
      rcases put_pending hp with ⟨rfl, hv'⟩ | hold
      · exact hv'
      · exact hold
    · exact fun _ => rfl
    · rfl
    · intro w' other proxy payload hw' hphase
      exact hother hw' hphase fun hown => by cases hown
  · apply hinv.kept hissued hq.next hq.executor_of
    · intro p iid' o hp
      rcases put_pending hp with ⟨rfl, hv'⟩ | hold
      · change Function.update (h.kernel.pendings entry.runtime.executor.pending) iid
          (some h.kernel.next) iid' = some o at hv'
        rcases update_eq_some hv' with ⟨rfl, hnew⟩ | ⟨-, hv'⟩
        · cases hnew
          right
          rw [hissue]
          have hbuilt := (hinv.issued.homed.wired.entry _ entry hentry).2
          exact ⟨rfl, _, mem_singleton_self _, hbuilt.pending.symm, rfl, rfl⟩
        · exact .inl hv'
      · exact .inl hold
    · intro o
      change (Function.update (TurnView.dropSender h.kernel.oneshots _) h.kernel.next
        ⟨none, true, true⟩ o).value = _
      rcases eq_or_ne o h.kernel.next with rfl | hne
      · rw [update_self, hinv.fresh_value]
      · rw [update_of_ne hne]
        exact TurnView.dropSender_value _ _ o
    · rfl
    · intro w' other proxy payload hw' hphase'
      exact hother hw' hphase' fun hown => by cases hown

/-- The steps of the callers that bring results. -/
def Action.isDelivery : Action → Bool
  | .deliverCall _ _ _ | .deliverTake _ | .deliverSend _ => true
  | _ => false

theorem step_undelivered (h : k.step a = some k') (haside : a.isAside = true)
    (ha : a.isDelivery = false) :
    k'.pendings = k.pendings ∧ k'.oneshots = k.oneshots ∧ k'.delivers = k.delivers := by
  cases a with
  | cancelCall sid =>
    cases h
    unfold Kernel.cancelCall
    split <;> exact ⟨rfl, rfl, rfl⟩
  | cancelStore c =>
    simp only [Kernel.step, Kernel.cancelStore] at h
    split at h <;> cases h
    exact ⟨rfl, rfl, rfl⟩
  | cancelToken c =>
    simp only [Kernel.step, Kernel.cancelToken] at h
    split at h <;> cases h
    exact ⟨rfl, rfl, rfl⟩
  | receive c =>
    cases h
    exact ⟨rfl, rfl, rfl⟩
  | dropReceivers c =>
    cases h
    exact ⟨rfl, rfl, rfl⟩
  | changeDisk disk =>
    cases h
    exact ⟨rfl, rfl, rfl⟩
  | deliverCall _ _ _ => cases ha
  | deliverTake _ => cases ha
  | deliverSend _ => cases ha
  | _ => cases haside

theorem RoutingInv.undelivered (hinv : RoutingInv h) (hstep : h.kernel.step a = some k')
    (haside : a.isAside = true) (ha : a.isDelivery = false) :
    RoutingInv ⟨k', h.issues ++ issuesOf h.kernel a, h.target, h.sends⟩ := by
  have hq := Kernel.step_aside hstep haside
  obtain ⟨hpendings, honeshots, hdelivers⟩ := step_undelivered hstep haside ha
  apply hinv.kept (hinv.issued.step hstep) hq.next hq.quiet.executor_of
  · intro p iid o hp
    rw [hpendings] at hp
    exact .inl hp
  · intro o
    rw [honeshots]
  · exact hdelivers
  · rw [hq.workers]
    exact hinv.result

theorem RoutingInv.build (hinv : RoutingInv h) (disk : SessionTree) (key : String)
    (session : Session) (record : SessionRecord) (maxIterations : Option Nat)
    (channels msgCount : Nat) (stamps : SaveStamps) :
    RoutingInv
      ⟨{ h.kernel with disk }.install key session record maxIterations channels msgCount stamps,
        h.issues ++ [], h.target, h.sends⟩ := by
  apply hinv.kept
  · rw [append_nil]
    exact (hinv.issued.withDisk disk).install ..
  · exact Nat.le_succ _
  · intro r e he
    have hlt := (hinv.issued.homed.wired.entry r e he).1
    rw [Kernel.install_entries, update_of_ne (Nat.ne_of_lt hlt)]
    exact ⟨e, he, rfl⟩
  · intro p iid o hp
    change Function.update h.kernel.pendings h.kernel.next (fun _ => none) p iid = _ at hp
    rcases eq_or_ne p h.kernel.next with rfl | hne
    · rw [update_self] at hp
      cases hp
    · rw [update_of_ne hne] at hp
      exact .inl hp
  · exact fun _ => rfl
  · rfl
  · exact hinv.result

theorem runTurnStreaming_proxies (k : Kernel) (sid text : String) (ctx : Option String) :
    (k.runTurnStreaming sid text ctx).pendings = k.pendings ∧
      (k.runTurnStreaming sid text ctx).oneshots = k.oneshots ∧
      (k.runTurnStreaming sid text ctx).delivers = k.delivers := by
  unfold Kernel.runTurnStreaming
  split <;> exact ⟨rfl, rfl, rfl⟩

theorem RoutingInv.runTurnStreaming (hinv : RoutingInv h) (sid text : String)
    (ctx : Option String) :
    RoutingInv ⟨h.kernel.runTurnStreaming sid text ctx, h.issues ++ [], h.target, h.sends⟩ := by
  obtain ⟨hpendings, honeshots, hdelivers⟩ := runTurnStreaming_proxies h.kernel sid text ctx
  apply hinv.kept
  · rw [append_nil]
    exact hinv.issued.runTurnStreaming sid text ctx
  · exact Kernel.runTurnStreaming_next h.kernel sid text ctx
  · intro r e he
    rw [Kernel.runTurnStreaming_entries]
    exact ⟨e, he, rfl⟩
  · intro p iid o hp
    rw [hpendings] at hp
    exact .inl hp
  · intro o
    rw [honeshots]
  · exact hdelivers
  · intro w worker proxy payload hworker hphase
    rcases Kernel.runTurnStreaming_worker hworker with hold | ⟨-, hqueued⟩
    · exact hinv.result w worker proxy payload hold hphase
    · rw [hqueued] at hphase
      cases hphase

theorem RoutingInv.remove (hinv : RoutingInv h) (sid : String) :
    RoutingInv ⟨h.kernel.remove sid, h.issues ++ [], h.target, h.sends⟩ := by
  apply hinv.kept
  · rw [append_nil]
    exact hinv.issued.remove sid
  · exact Nat.le_refl _
  · exact fun r e he => ⟨e, he, rfl⟩
  · exact fun p iid o hp => .inl hp
  · exact fun _ => rfl
  · rfl
  · exact hinv.result

theorem RoutingInv.restart (hinv : RoutingInv h) :
    RoutingInv ⟨h.kernel.restart, h.issues ++ [], fun _ => none, []⟩ := by
  have hissued := hinv.issued.restart
  rw [append_nil]
  constructor <;> first | exact hissued | simp [Kernel.restart, Kernel.start]

theorem RoutingInv.retarget (hinv : RoutingInv h) (t : Option Issue) :
    RoutingInv ⟨h.kernel, h.issues, Function.update h.target h.kernel.next t, h.sends⟩ := by
  have htarget : ∀ {d call}, h.kernel.delivers d = some call →
      Function.update h.target h.kernel.next t d = h.target d := by
    intro d call hcall
    exact update_of_ne (Nat.ne_of_lt (hinv.call d call hcall).1) ..
  have hmeant : ∀ {d call o}, h.kernel.delivers d = some call → Meant h d call o →
      Meant ⟨h.kernel, h.issues, Function.update h.target h.kernel.next t, h.sends⟩ d call o := by
    rintro d call o hcall ⟨i, hi, hsid, hiid, ho, hmean⟩
    refine ⟨i, hi, hsid, hiid, ho, fun t' ht' => hmean t' ?_⟩
    exact (htarget hcall).symm.trans ht'
  refine { hinv with
    call := fun d call hcall => ?_
    taken := fun d call o hcall hstage => ?_
    sent := fun d o ho => ?_ }
  · obtain ⟨hlt, hentry, hmean⟩ := hinv.call d call hcall
    exact ⟨hlt, hentry, fun t' ht' => hmean t' ((htarget hcall).symm.trans ht')⟩
  · exact hmeant hcall (hinv.taken d call o hcall hstage)
  · obtain ⟨call, hcall, hret, hm, hval⟩ := hinv.sent d o ho
    exact ⟨call, hcall, hret, hmeant hcall hm, hval⟩

/-- A call that is in no `taken` stage adds no taken channel. -/
theorem restaged_taken {delivers : Nat → Option DeliverCall} {new : DeliverCall}
    (hnew : ∀ o, new.stage ≠ .taken o) {d' : Nat}
    (h : Function.update delivers d (some new) d' = some call) (hstage : call.stage = .taken o) :
    delivers d' = some call := by
  rcases update_eq_some h with ⟨-, heq⟩ | ⟨-, hold⟩
  · cases heq
    exact absurd hstage (hnew o)
  · exact hold

theorem RoutingInv.called (hinv : RoutingInv h) {sid iid : String} {payload : ProxyResultPayload}
    {state : SharedSessionState} (hstate : h.kernel.shared sid = some state)
    (htarget : ∀ t, h.target h.kernel.next = some t →
      t ∈ h.issues ∧ t.sessionId = sid ∧ t.instructionId = iid) :
    RoutingInv ⟨{ h.kernel with
      next := h.kernel.next + 1
      delivers := Function.update h.kernel.delivers h.kernel.next
        (some ⟨sid, iid, payload, state.pendingProxy, .snapshot⟩) },
      h.issues, h.target, h.sends⟩ := by
  have hlive : ∀ {d call}, h.kernel.delivers d = some call → d ≠ h.kernel.next := by
    intro d call hcall
    exact Nat.ne_of_lt (hinv.call d call hcall).1
  have hback := fun d call o => @restaged_taken h.kernel.next o call h.kernel.delivers
    ⟨sid, iid, payload, state.pendingProxy, .snapshot⟩ (by simp) d
  constructor
  case issued =>
    exact hinv.issued.aside ⟨rfl, rfl, Nat.le_succ _, rfl, rfl⟩
  case pending => exact hinv.pending
  case call =>
    intro d call hcall
    rcases update_eq_some hcall with ⟨rfl, hnew⟩ | ⟨-, hold⟩
    · cases hnew
      refine ⟨Nat.lt_succ_self _, hinv.issued.homed.home sid state hstate, fun t ht => ?_⟩
      obtain ⟨hmem, hsid, hiid⟩ := htarget t ht
      exact ⟨hmem, hsid, hiid, hinv.issued.newest t hmem state (hsid ▸ hstate)⟩
    · obtain ⟨hlt, hfacts⟩ := hinv.call d call hold
      exact ⟨Nat.lt_succ_of_lt hlt, hfacts⟩
  case taken =>
    intro d call o h' hs
    exact hinv.taken d call o (hback d call o h' hs) hs
  case takenOnce =>
    intro d₁ d₂ call₁ call₂ o h₁ h₂ hs₁ hs₂
    exact hinv.takenOnce d₁ d₂ call₁ call₂ o (hback d₁ call₁ o h₁ hs₁)
      (hback d₂ call₂ o h₂ hs₂) hs₁ hs₂
  case takenOut =>
    intro d call o h' hs
    exact hinv.takenOut d call o (hback d call o h' hs) hs
  case sent =>
    intro d o ho
    obtain ⟨call, hcall, hfacts⟩ := hinv.sent d o ho
    exact ⟨call, (update_of_ne (hlive hcall) ..).trans hcall, hfacts⟩
  case sentOnce => exact hinv.sentOnce
  case sentOnly => exact hinv.sentOnly
  case sentOut =>
    intro d o ho
    obtain ⟨hfree, hstage⟩ := hinv.sentOut d o ho
    refine ⟨hfree, fun d' call hcall => ?_⟩
    rcases update_eq_some hcall with ⟨rfl, hnew⟩ | ⟨-, hold⟩
    · cases hnew
      simp
    · exact hstage d' call hold
  case returned =>
    intro d call hcall hstage
    rcases update_eq_some hcall with ⟨rfl, hnew⟩ | ⟨-, hold⟩
    · cases hnew
      cases hstage
    · exact hinv.returned d call hold hstage
  case filled => exact hinv.filled
  case result => exact hinv.result

/-- A call of `deliver_proxy_result` for the ids of the instruction meant, if
one is. -/
theorem RoutingInv.deliverCall (hinv : RoutingInv h) (sid iid : String)
    (payload : ProxyResultPayload) {t : Option Issue}
    (ht : ∀ i, t = some i → i ∈ h.issues ∧ i.sessionId = sid ∧ i.instructionId = iid) :
    RoutingInv ⟨h.kernel.deliverCall sid iid payload, h.issues,
      Function.update h.target h.kernel.next t, h.sends⟩ := by
  have hinv' := hinv.retarget t
  unfold Kernel.deliverCall
  split
  · exact hinv'
  · rename_i state hstate
    apply hinv'.called hstate
    intro i hi
    change Function.update h.target h.kernel.next t h.kernel.next = some i at hi
    rw [update_self] at hi
    exact ht i hi

/-- A call that was under way returns `false`. -/
theorem RoutingInv.failed (hinv : RoutingInv h) (hcall : h.kernel.delivers d = some call)
    (hstage : call.stage ≠ .returned true) {oneshots : Nat → Oneshot}
    (hvals : ∀ o, (oneshots o).value = (h.kernel.oneshots o).value) :
    RoutingInv ⟨{ h.kernel with
      oneshots
      delivers := Function.update h.kernel.delivers d
        (some { call with stage := .returned false }) }, h.issues, h.target, h.sends⟩ := by
  have hunsent : ∀ {d' o}, (d', o) ∈ h.sends → d' ≠ d := by
    rintro d' o ho rfl
    obtain ⟨call', hcall', hret, -⟩ := hinv.sent d' o ho
    rw [hcall] at hcall'
    cases hcall'
    exact hstage hret
  have hback := fun d' call' o => @restaged_taken d o call' h.kernel.delivers
    { call with stage := .returned false } (by simp) d'
  refine { hinv with
    issued := hinv.issued.aside ⟨rfl, rfl, Nat.le_refl _, rfl, rfl⟩
    taken := fun d' call' o h' hs => hinv.taken d' call' o (hback d' call' o h' hs) hs
    takenOnce := fun d₁ d₂ call₁ call₂ o h₁ h₂ hs₁ hs₂ =>
      hinv.takenOnce d₁ d₂ call₁ call₂ o (hback d₁ call₁ o h₁ hs₁)
        (hback d₂ call₂ o h₂ hs₂) hs₁ hs₂
    takenOut := fun d' call' o h' hs => hinv.takenOut d' call' o (hback d' call' o h' hs) hs
    call := ?call, sent := ?sent, sentOut := ?sentOut, returned := ?returned
    filled := ?filled, result := ?result }
  case call =>
    intro d' call' hcall'
    rcases update_eq_some hcall' with ⟨rfl, hnew⟩ | ⟨-, hold⟩
    · cases hnew
      exact hinv.call d' call hcall
    · exact hinv.call d' call' hold
  case sent =>
    intro d' o ho
    obtain ⟨call', hcall', hret, hmeant, hval⟩ := hinv.sent d' o ho
    exact ⟨call', (update_of_ne (hunsent ho) ..).trans hcall', hret, hmeant,
      (hvals o).trans hval⟩
  case sentOut =>
    intro d' o ho
    obtain ⟨hfree, hout⟩ := hinv.sentOut d' o ho
    refine ⟨hfree, fun d'' call' hcall' => ?_⟩
    rcases update_eq_some hcall' with ⟨rfl, hnew⟩ | ⟨-, hold⟩
    · cases hnew
      simp
    · exact hout d'' call' hold
  case returned =>
    intro d' call' hcall' hret
    rcases update_eq_some hcall' with ⟨rfl, hnew⟩ | ⟨-, hold⟩
    · cases hnew
      cases hret
    · exact hinv.returned d' call' hold hret
  case filled =>
    intro o payload hval
    exact hinv.filled o payload ((hvals o).symm.trans hval)
  case result =>
    intro w worker proxy payload hworker hphase
    exact (hvals _).trans (hinv.result w worker proxy payload hworker hphase)

theorem RoutingInv.found (hinv : RoutingInv h) (hcall : h.kernel.delivers d = some call)
    (hpend : h.kernel.pendings call.pending call.instructionId = some o)
    (hok : NotReissued h (.kernel (.deliverTake d))) : Meant h d call o := by
  obtain ⟨i, hi, hentry, hiid, ho⟩ := hinv.pending _ _ o hpend
  obtain ⟨-, ⟨e, he, hid⟩, htarget⟩ := hinv.call d call hcall
  have hsid : i.sessionId = call.sessionId :=
    ((hinv.issued.minted i hi e (hentry ▸ he)).1).trans hid
  refine ⟨i, hi, hsid, hiid, ho, fun t ht => ?_⟩
  obtain ⟨hmem, htsid, htiid, hle⟩ := htarget t ht
  have hnotLater : i.entry ≤ t.entry :=
    hok d rfl t ht i hi (hsid.trans htsid.symm) (hiid.trans htiid.symm)
  have hsame : t.entry = i.entry := by omega
  exact hinv.issued.idOnce t hmem i hi hsame (htiid.trans hiid.symm)

theorem RoutingInv.took (hinv : RoutingInv h) (hcall : h.kernel.delivers d = some call)
    (hstage : call.stage = .snapshot)
    (hpend : h.kernel.pendings call.pending call.instructionId = some o)
    (hmeant : Meant h d call o) :
    RoutingInv ⟨{ h.kernel with
      pendings := Function.update h.kernel.pendings call.pending
        (Function.update (h.kernel.pendings call.pending) call.instructionId none)
      delivers := Function.update h.kernel.delivers d
        (some { call with stage := .taken o }) }, h.issues, h.target, h.sends⟩ := by
  have hsub : ∀ {p iid o'}, Function.update h.kernel.pendings call.pending
      (Function.update (h.kernel.pendings call.pending) call.instructionId none) p iid = some o' →
      h.kernel.pendings p iid = some o' ∧ (p = call.pending → iid ≠ call.instructionId) := by
    intro p iid o' hp
    rcases eq_or_ne p call.pending with rfl | hne
    · rw [update_self] at hp
      rcases update_eq_some hp with ⟨-, hnone⟩ | ⟨hiid, hold⟩
      · cases hnone
      · exact ⟨hold, fun _ => hiid⟩
    · rw [update_of_ne hne] at hp
      exact ⟨hp, fun heq => absurd heq hne⟩
  -- a channel is registered in one place only, so it is out of the map now
  have hout : ∀ p iid, Function.update h.kernel.pendings call.pending
      (Function.update (h.kernel.pendings call.pending) call.instructionId none) p iid ≠
        some o := by
    intro p iid hp
    obtain ⟨hold, hne⟩ := hsub hp
    obtain ⟨i, hi, hentry, hiid, hio⟩ := hinv.pending p iid o hold
    obtain ⟨j, hj, hentry', hjid, hjo⟩ := hinv.pending _ _ o hpend
    have hsame := hinv.issued.oneshotOnce i hi j hj (hio.trans hjo.symm)
    subst hsame
    exact hne (hentry.symm.trans hentry') (hiid.symm.trans hjid)
  have hunsent : ∀ {d' o'}, (d', o') ∈ h.sends → d' ≠ d := by
    rintro d' o' ho rfl
    obtain ⟨call', hcall', hret, -⟩ := hinv.sent d' o' ho
    rw [hcall] at hcall'
    cases hcall'
    rw [hstage] at hret
    cases hret
  refine { hinv with
    issued := hinv.issued.aside ⟨rfl, rfl, Nat.le_refl _, rfl, rfl⟩
    pending := ?pending, call := ?call, taken := ?taken, takenOnce := ?takenOnce
    takenOut := ?takenOut, sent := ?sent, sentOut := ?sentOut, returned := ?returned }
  case pending =>
    intro p iid o' hp
    exact hinv.pending p iid o' (hsub hp).1
  case call =>
    intro d' call' hcall'
    rcases update_eq_some hcall' with ⟨rfl, hnew⟩ | ⟨-, hold⟩
    · cases hnew
      exact hinv.call d' call hcall
    · exact hinv.call d' call' hold
  case taken =>
    intro d' call' o' hcall' hstage'
    rcases update_eq_some hcall' with ⟨rfl, hnew⟩ | ⟨-, hold⟩
    · cases hnew
      cases hstage'
      exact hmeant
    · exact hinv.taken d' call' o' hold hstage'
  case takenOnce =>
    intro d₁ d₂ call₁ call₂ o' h₁ h₂ hstage₁ hstage₂
    rcases update_eq_some h₁ with ⟨rfl, hnew₁⟩ | ⟨-, hold₁⟩ <;>
      rcases update_eq_some h₂ with ⟨rfl, hnew₂⟩ | ⟨-, hold₂⟩
    · rfl
    · cases hnew₁
      cases hstage₁
      exact absurd hpend (hinv.takenOut d₂ call₂ o hold₂ hstage₂ _ _)
    · cases hnew₂
      cases hstage₂
      exact absurd hpend (hinv.takenOut d₁ call₁ o hold₁ hstage₁ _ _)
    · exact hinv.takenOnce d₁ d₂ call₁ call₂ o' hold₁ hold₂ hstage₁ hstage₂
  case takenOut =>
    intro d' call' o' hcall' hstage'
    rcases update_eq_some hcall' with ⟨rfl, hnew⟩ | ⟨-, hold⟩
    · cases hnew
      cases hstage'
      exact hout
    · intro p iid hp
      exact hinv.takenOut d' call' o' hold hstage' p iid (hsub hp).1
  case sent =>
    intro d' o' ho
    obtain ⟨call', hcall', hfacts⟩ := hinv.sent d' o' ho
    exact ⟨call', (update_of_ne (hunsent ho) ..).trans hcall', hfacts⟩
  case sentOut =>
    intro d' o' ho
    obtain ⟨hfree, hnottaken⟩ := hinv.sentOut d' o' ho
    refine ⟨fun p iid hp => hfree p iid (hsub hp).1, fun d'' call' hcall' => ?_⟩
    rcases update_eq_some hcall' with ⟨rfl, hnew⟩ | ⟨-, hold⟩
    · cases hnew
      intro heq
      cases heq
      exact hfree _ _ hpend
    · exact hnottaken d'' call' hold
  case returned =>
    intro d' call' hcall' hret
    rcases update_eq_some hcall' with ⟨rfl, hnew⟩ | ⟨-, hold⟩
    · cases hnew
      cases hret
    · exact hinv.returned d' call' hold hret

/-- A call sends on the channel it has taken and returns `true`. -/
theorem RoutingInv.delivered (hinv : RoutingInv h) (hcall : h.kernel.delivers d = some call)
    (hstage : call.stage = .taken o) {oneshot : Oneshot}
    (hval : oneshot.value = some call.payload) :
    RoutingInv ⟨{ h.kernel with
      oneshots := Function.update h.kernel.oneshots o oneshot
      delivers := Function.update h.kernel.delivers d
        (some { call with stage := .returned true }) },
      h.issues, h.target, h.sends ++ [(d, o)]⟩ := by
  have hunsent : ∀ {d' o'}, (d', o') ∈ h.sends → d' ≠ d ∧ o' ≠ o := by
    intro d' o' ho
    obtain ⟨call', hcall', hret, -⟩ := hinv.sent d' o' ho
    refine ⟨?_, ?_⟩
    · rintro rfl
      rw [hcall] at hcall'
      cases hcall'
      rw [hstage] at hret
      cases hret
    · rintro rfl
      exact (hinv.sentOut d' o' ho).2 d call hcall hstage
  have hnew_of : ∀ {x}, x ∈ h.sends ++ [(d, o)] → x ∈ h.sends ∨ x = (d, o) := by
    intro x hx
    rcases mem_append.mp hx with hold | hnew
    · exact .inl hold
    · exact .inr (mem_singleton.mp hnew)
  have hback := fun d' call' o' => @restaged_taken d o' call' h.kernel.delivers
    { call with stage := .returned true } (by simp) d'
  constructor
  case issued => exact hinv.issued.aside ⟨rfl, rfl, Nat.le_refl _, rfl, rfl⟩
  case pending => exact hinv.pending
  case call =>
    intro d' call' hcall'
    rcases update_eq_some hcall' with ⟨rfl, hnew⟩ | ⟨-, hold⟩
    · cases hnew
      exact hinv.call d' call hcall
    · exact hinv.call d' call' hold
  case taken =>
    intro d' call' o' h' hs
    exact hinv.taken d' call' o' (hback d' call' o' h' hs) hs
  case takenOnce =>
    intro d₁ d₂ call₁ call₂ o' h₁ h₂ hs₁ hs₂
    exact hinv.takenOnce d₁ d₂ call₁ call₂ o' (hback d₁ call₁ o' h₁ hs₁)
      (hback d₂ call₂ o' h₂ hs₂) hs₁ hs₂
  case takenOut =>
    intro d' call' o' h' hs
    exact hinv.takenOut d' call' o' (hback d' call' o' h' hs) hs
  case sent =>
    intro d' o' ho
    rcases hnew_of ho with hold | hnew
    · obtain ⟨call', hcall', hret, hmeant, hval'⟩ := hinv.sent d' o' hold
      obtain ⟨hd, ho'⟩ := hunsent hold
      refine ⟨call', (update_of_ne hd ..).trans hcall', hret, hmeant, ?_⟩
      change (Function.update h.kernel.oneshots o oneshot o').value = _
      rw [update_of_ne ho']
      exact hval'
    · cases hnew
      refine ⟨_, update_self .., rfl, hinv.taken d call o hcall hstage, ?_⟩
      change (Function.update h.kernel.oneshots o oneshot o).value = _
      rw [update_self]
      exact hval
  case sentOnce =>
    intro d₁ d₂ o' h₁ h₂
    rcases hnew_of h₁ with hold₁ | hnew₁ <;> rcases hnew_of h₂ with hold₂ | hnew₂
    · exact hinv.sentOnce d₁ d₂ o' hold₁ hold₂
    · cases hnew₂
      exact absurd rfl (hunsent hold₁).2
    · cases hnew₁
      exact absurd rfl (hunsent hold₂).2
    · cases hnew₁
      cases hnew₂
      rfl
  case sentOnly =>
    intro d' o₁ o₂ h₁ h₂
    rcases hnew_of h₁ with hold₁ | hnew₁ <;> rcases hnew_of h₂ with hold₂ | hnew₂
    · exact hinv.sentOnly d' o₁ o₂ hold₁ hold₂
    · cases hnew₂
      exact absurd rfl (hunsent hold₁).1
    · cases hnew₁
      exact absurd rfl (hunsent hold₂).1
    · cases hnew₁
      cases hnew₂
      rfl
  case sentOut =>
    intro d' o' ho
    have hfacts : (∀ p iid, h.kernel.pendings p iid ≠ some o') ∧
        ∀ d'' call', d'' ≠ d → h.kernel.delivers d'' = some call' → call'.stage ≠ .taken o' := by
      rcases hnew_of ho with hold | hnew
      · obtain ⟨hfree, hnottaken⟩ := hinv.sentOut d' o' hold
        exact ⟨hfree, fun d'' call' _ => hnottaken d'' call'⟩
      · cases hnew
        refine ⟨hinv.takenOut d call o hcall hstage, fun d'' call' hne hcall' hstage' => ?_⟩
        exact hne (hinv.takenOnce d'' d call' call o hcall' hcall hstage' hstage)
    refine ⟨hfacts.1, fun d'' call' hcall' => ?_⟩
    rcases update_eq_some hcall' with ⟨rfl, hnew⟩ | ⟨hne, hold⟩
    · cases hnew
      simp
    · exact hfacts.2 d'' call' hne hold
  case returned =>
    intro d' call' hcall' hret
    rcases update_eq_some hcall' with ⟨rfl, hnew⟩ | ⟨-, hold⟩
    · exact ⟨o, mem_append_right _ (mem_singleton_self _)⟩
    · obtain ⟨o', ho⟩ := hinv.returned d' call' hold hret
      exact ⟨o', mem_append_left _ ho⟩
  case filled =>
    intro o' payload hval'
    change (Function.update h.kernel.oneshots o oneshot o').value = _ at hval'
    rcases eq_or_ne o' o with rfl | hne
    · exact ⟨d, mem_append_right _ (mem_singleton_self _)⟩
    · rw [update_of_ne hne] at hval'
      obtain ⟨d', hd'⟩ := hinv.filled o' payload hval'
      exact ⟨d', mem_append_left _ hd'⟩
  case result =>
    intro w worker proxy payload hworker hphase
    have hold := hinv.result w worker proxy payload hworker hphase
    obtain ⟨d', hd'⟩ := hinv.filled _ payload hold
    change (Function.update h.kernel.oneshots o oneshot proxy.oneshot).value = _
    rw [update_of_ne (hunsent hd').2]
    exact hold

theorem RoutingInv.deliverTake (hinv : RoutingInv h) (hstep : h.kernel.deliverTake d = some k')
    (hok : NotReissued h (.kernel (.deliverTake d))) :
    RoutingInv ⟨k', h.issues, h.target, h.sends⟩ := by
  unfold Kernel.deliverTake at hstep
  split at hstep
  · rename_i sid iid payload pending hcall
    split at hstep
    · cases hstep
      exact hinv.failed hcall (by simp) fun _ => rfl
    · rename_i sender hpend
      cases hstep
      exact hinv.took hcall rfl hpend (hinv.found hcall hpend hok)
  · cases hstep

theorem RoutingInv.deliverSend (hinv : RoutingInv h) (hstep : h.kernel.deliverSend d = some k') :
    RoutingInv ⟨k', h.issues, h.target, h.sends ++ sendsOf h.kernel (.deliverSend d)⟩ := by
  unfold Kernel.deliverSend at hstep
  split at hstep
  · rename_i sid iid payload pending sender hcall
    rcases halive : (h.kernel.oneshots sender).receiverAlive with - | -
    · have hnone : sendsOf h.kernel (.deliverSend d) = [] := by
        simp [sendsOf, hcall, halive]
      cases hstep
      rw [hnone, append_nil]
      simp only [halive]
      apply hinv.failed hcall (by simp)
      intro o
      rcases eq_or_ne o sender with rfl | hne
      · rw [update_self]
        rfl
      · rw [update_of_ne hne]
    · have hone : sendsOf h.kernel (.deliverSend d) = [(d, sender)] := by
        simp [sendsOf, hcall, halive]
      cases hstep
      rw [hone]
      simp only [halive]
      exact hinv.delivered hcall rfl rfl
  · cases hstep

theorem issuesOf_delivery (ha : a.isDelivery = true) :
    issuesOf k a = [] := by
  cases a <;> first | rfl | cases ha

/-- A step that looks up, if it does, a result whose instruction id was not
issued again keeps the invariant. -/
theorem RoutingInv.step {h' : RoutingHistory} {a : RoutingAction} (hinv : RoutingInv h)
    (hstep : h.step a = some h') (hok : NotReissued h a) : RoutingInv h' := by
  cases a with
  | answer n payload =>
    obtain ⟨issue, hissue, rfl⟩ := Option.map_eq_some_iff.mp hstep
    apply hinv.deliverCall
    intro i hi
    cases hi
    exact ⟨mem_of_getElem? hissue, rfl, rfl⟩
  | kernel a =>
    obtain ⟨k', hk', rfl⟩ := Option.map_eq_some_iff.mp hstep
    have hsame : sendsOf h.kernel a = [] → targetAfter h.kernel h.target a = h.target →
        sendsAfter h.kernel h.sends a = h.sends ++ sendsOf h.kernel a →
        RoutingInv ⟨k', h.issues ++ issuesOf h.kernel a, h.target, h.sends⟩ →
        RoutingInv ⟨k', h.issues ++ issuesOf h.kernel a, targetAfter h.kernel h.target a,
          sendsAfter h.kernel h.sends a⟩ := by
      intro hnone htarget hsends hkept
      rw [htarget, hsends, hnone, append_nil]
      exact hkept
    cases a using Action.byKind with
    | create req stamps =>
      cases hk'
      exact hsame rfl rfl rfl (hinv.build ..)
    | resume req stamps =>
      cases hk'
      apply hsame rfl rfl rfl
      rcases hsession : h.kernel.sessions req.sessionId with - | handle
      · obtain ⟨record, hbuilt⟩ := Kernel.resume_builds hsession stamps
        rw [hbuilt]
        exact hinv.build ..
      · rw [Kernel.resume_live hsession stamps]
        change RoutingInv ⟨h.kernel, h.issues ++ [], h.target, h.sends⟩
        rw [append_nil]
        exact hinv
    | runTurnStreaming sid text ctx =>
      cases hk'
      exact hsame rfl rfl rfl (hinv.runTurnStreaming sid text ctx)
    | remove sid =>
      cases hk'
      exact hsame rfl rfl rfl (hinv.remove sid)
    | restart =>
      cases hk'
      exact hinv.restart
    | turn w act => exact hsame rfl rfl rfl (hinv.turn hk')
    | aside a haside =>
      rcases hdelivery : a.isDelivery with - | -
      · apply hsame _ _ _ (hinv.undelivered hk' haside hdelivery) <;>
          cases a <;> first | rfl | (cases haside; done) | cases hdelivery
      · rw [issuesOf_delivery hdelivery, append_nil]
        cases a with
        | deliverCall sid iid payload =>
          cases hk'
          change RoutingInv ⟨_, _, Function.update h.target h.kernel.next none,
            h.sends ++ []⟩
          rw [append_nil]
          apply hinv.deliverCall
          intro i hi
          cases hi
        | deliverTake d =>
          change RoutingInv ⟨k', _, h.target, h.sends ++ []⟩
          rw [append_nil]
          exact hinv.deliverTake hk' hok
        | deliverSend d => exact hinv.deliverSend hk'
        | _ => cases hdelivery

/-- In every run whose looked-up results are meant for instructions that no
runtime built later for the session has issued again, proxy results are routed
exactly. -/
theorem results_routed_along (disk : SessionTree) (backend : SessionBackend)
    (acts : List RoutingAction)
    (hlatest : Meets RoutingHistory.step NotReissued (.start disk backend) acts) :
    Along RoutingHistory.step Routed (.start disk backend) acts := by
  have hinit : RoutingInv (.start disk backend) := by
    have hissued := IssueInv.start disk backend
    constructor <;> first | exact hissued | simp [RoutingHistory.start, Kernel.start]
  have halong := hlatest.along (fun h a h' hinv hstep hok => RoutingInv.step hinv hstep hok) hinit
  exact halong.mono fun h hinv => hinv.routed

/-- A turn of the session `session-2-0` up to the wait of a proxy call. -/
def turnToWait (w : Nat) : List RoutingAction :=
  let stamps : PushStamps := ⟨21, ⟨22, ⟨23, 3⟩, 24⟩⟩
  [.kernel (.runTurnStreaming "session-2-0" "why is it slow?" none),
    .kernel (.turn w .acquire), .kernel (.turn w (.enter (.ok ()) stamps)),
    .kernel (.turn w .check),
    .kernel (.turn w (.stream (.ok [.toolUse "t" "bash" "", .messageStop]) stamps)),
    .kernel (.turn w (.gate (.allow "") stamps)), .kernel (.turn w .proxyCheck),
    .kernel (.turn w .register), .kernel (.turn w .dispatch)]

def createSession : RoutingAction :=
  .kernel (.create ⟨"mock", none, 0, some "/data", none⟩
    ⟨1, ⟨2, 0⟩, 3, ⟨4, ⟨5, 1⟩, 6⟩, ⟨7, ⟨8, 2⟩, 9⟩⟩)

/-- An instruction is answered before its session is removed. -/
theorem results_routed_along_answer :
    Along RoutingHistory.step Routed (.start .empty (.memory .new))
      (createSession :: turnToWait 1 ++
        [.answer 0 ⟨"2 rows", false⟩, .kernel (.deliverTake 3), .kernel (.deliverSend 3)]) :=
  results_routed_along _ _ _ (by decide +kernel)

/-- The answer to the first instruction arrives after the session was removed
and resumed, and the new runtime has issued the same id. -/
def lateAnswer : List RoutingAction :=
  createSession :: turnToWait 1 ++
    [.kernel (.remove "session-2-0"),
      .kernel (.resume ⟨"session-2-0", "/data", "", "mock", none, 1⟩
        ⟨31, ⟨32, 0⟩, 33, ⟨34, ⟨35, 1⟩, 36⟩, ⟨37, ⟨38, 2⟩, 39⟩⟩)] ++
    turnToWait 4 ++
    [.answer 0 ⟨"2 rows", false⟩, .kernel (.deliverTake 6), .kernel (.deliverSend 6)]

/-- The late answer is accepted as the answer to the new instruction. -/
theorem late_answer_misrouted :
    ¬ ∀ disk backend acts, Along RoutingHistory.step Routed (.start disk backend) acts := by
  intro hlaw
  have hrun : (run RoutingHistory.step (.start .empty (.memory .new)) lateAnswer).any (fun h =>
      (h.kernel.delivers 6).map DeliverCall.stage = some (.returned true) ∧
      h.sends = [(6, 5)] ∧ (h.target 6).map Issue.oneshot = some 2) = true := by
    decide +kernel
  obtain ⟨h, hh, hfacts⟩ := (Option.any_eq_true _ _).mp hrun
  obtain ⟨hstage, hsends, htarget⟩ := of_decide_eq_true hfacts
  obtain ⟨call, hcall, hret⟩ := Option.map_eq_some_iff.mp hstage
  obtain ⟨t, ht, htwo⟩ := Option.map_eq_some_iff.mp htarget
  have hrouted := (hlaw .empty (.memory .new) lateAnswer).last hh
  obtain ⟨o, ho, -, ⟨i, -, -, -, hio, hmeant⟩, -⟩ := hrouted.delivered 6 call hcall hret
  rw [hsends, mem_singleton] at ho
  cases ho
  rw [← hmeant t ht, htwo] at hio
  cases hio

end DbClinic.Server
