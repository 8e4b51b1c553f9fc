import DbClinic.Server.SessionKeys

/-!
Which turn a cancel hits. A history records, for each worker, whether a cancel
returned while its turn was running and is not observed yet, and whether any
cancel of its session wrote a signal since its command was processed. The flag
is reset when the next turn is started, which may be too early; the token a
runtime was built with is never replaced, so a cancel that hits it hits every
later turn.
-/

namespace DbClinic.Server

open DbClinic.Runtime Persistence Transition Function

/-- The second and third field are history. -/
structure CancelHistory where
  kernel : Kernel
  owed : Nat → Bool
  since : Nat → Bool

def running (k : Kernel) (sid : String) (w : Nat) : Bool :=
  (k.workers w).any fun worker => worker.sessionId = sid && worker.phase.inTurn

/-- Returning from `cancel_turn`, a cancel is owed to the running turns of the
session; a check settles it. -/
def owedAfter (k : Kernel) (owed : Nat → Bool) : Action → Nat → Bool
  | .cancelToken c =>
    match k.cancels c with
    | none => owed
    | some call => fun w => owed w || running k call.sessionId w
  | .turn w .check => Function.update owed w false
  | .turn w .proxyCheck => Function.update owed w false
  | .runTurnStreaming _ _ _ => Function.update owed k.next false
  | .restart => fun _ => false
  | _ => owed

def signalled (k : Kernel) (since : Nat → Bool) (c : Nat) (w : Nat) : Bool :=
  match k.cancels c with
  | none => since w
  | some call => since w || (k.workers w).any fun worker => worker.sessionId = call.sessionId

def sinceAfter (k : Kernel) (since : Nat → Bool) : Action → Nat → Bool
  | .cancelStore c => signalled k since c
  | .cancelToken c => signalled k since c
  | .runTurnStreaming _ _ _ => Function.update since k.next false
  | .restart => fun _ => false
  | _ => since

def CancelHistory.step (h : CancelHistory) (a : Action) : Option CancelHistory :=
  (h.kernel.step a).map fun k' =>
    ⟨k', owedAfter h.kernel h.owed a, sinceAfter h.kernel h.since a⟩

def CancelHistory.start (disk : SessionTree) (backend : SessionBackend) : CancelHistory :=
  ⟨.start disk backend, fun _ => false, fun _ => false⟩

/-- Cancels hit the turn in flight. A turn to which a cancel is owed ends at the
next loop head it reaches and dispatches nothing at the next entry of the proxy
it reaches; a turn ends as cancelled only if a cancel of its session wrote a
signal after its command was processed. -/
structure CancelsHit (h : CancelHistory) : Prop where
  loopHead : ∀ w k', h.owed w = true → h.kernel.turn w .check = some k' →
    ∃ worker, k'.workers w = some worker ∧
      (worker.phase = .ended (some .cancelled) ∨ worker.phase = .ended (some .maxIterations))
  proxyEntry : ∀ w k', h.owed w = true → h.kernel.turn w .proxyCheck = some k' →
    ∃ worker call, k'.workers w = some worker ∧
      worker.phase = .toolReturned call "turn cancelled before proxy dispatch" true
  earlier : ∀ w worker, h.kernel.workers w = some worker →
    worker.phase.outcome = some (some .cancelled) → h.since w = true

/-- Nothing of an earlier session under this id is under way. -/
def Settled (k : Kernel) (sid : String) : Prop :=
  (∀ w worker, k.workers w = some worker → worker.sessionId = sid →
    worker.phase.unfinished = false) ∧
  ∀ c call, k.cancels c = some call → call.sessionId = sid → call.stage = .returned

/-- A turn is started while the runtime's own token is not cancelled, no running
turn of the session is owed a cancel and no cancel of the session is half done;
a session is built when nothing is under way under its id, from a file that
carries the id. -/
def CancelStepOk (h : CancelHistory) : Action → Prop
  | .runTurnStreaming sid _ _ => ∀ handle, h.kernel.sessions sid = some handle →
      (∀ e, h.kernel.entries handle.entry = some e →
        h.kernel.tokens e.runtime.cancelToken = false) ∧
      (∀ w, running h.kernel sid w = true → h.owed w = false) ∧
      ∀ c call, h.kernel.cancels c = some call → call.sessionId = sid → call.stage ≠ .stored
  | .create req stamps => Settled h.kernel (h.kernel.createdSession req stamps).1.sessionId
  | .resume req stamps => h.kernel.sessions req.sessionId = none →
      FileIdMatches h.kernel.disk req stamps ∧ Settled h.kernel req.sessionId
  | _ => True

/-- A token that is not the runtime's own belongs to no runtime. -/
def Detached (k : Kernel) (flag token : Nat) : Prop :=
  token < k.next ∧ (token = flag ∨ k.entries token = none)

/-- The invariant. In it everything in flight under a session id is about one
runtime, the one the id was last built with. -/
structure CancelInv (owner : Nat → String) (h : CancelHistory) : Prop where
  maps : MapsInv h.kernel
  owned : OwnedBy owner h.kernel
  token : ∀ sid s, h.kernel.shared sid = some s → Detached h.kernel s.cancelFlag s.cancelToken
  call : ∀ c call, h.kernel.cancels c = some call → c < h.kernel.next ∧
    call.flag < h.kernel.next ∧ owner call.flag = call.sessionId ∧
    Detached h.kernel call.flag call.token
  callLive : ∀ c call handle, h.kernel.cancels c = some call → call.stage ≠ .returned →
    h.kernel.sessions call.sessionId = some handle → call.flag = handle.entry
  callWorker : ∀ c call w worker, h.kernel.cancels c = some call → call.stage ≠ .returned →
    h.kernel.workers w = some worker → worker.phase.unfinished = true →
    worker.sessionId = call.sessionId → worker.entry = call.flag
  live : ∀ sid handle w worker, h.kernel.sessions sid = some handle →
    h.kernel.workers w = some worker → worker.phase.unfinished = true →
    worker.sessionId = sid → worker.entry = handle.entry
  stored : ∀ c call, h.kernel.cancels c = some call → call.stage = .stored →
    h.kernel.flags call.flag = true
  queued : ∀ w worker, h.kernel.workers w = some worker → worker.phase = .queued →
    h.owed w = false
  owed : ∀ w worker, h.kernel.workers w = some worker → worker.phase.inTurn = true →
    h.owed w = true → h.kernel.flags worker.entry = true
  since : ∀ w worker, h.kernel.workers w = some worker → worker.phase.unfinished = true →
    (h.kernel.flags worker.entry = true ∨ h.kernel.tokens worker.entry = true) →
    h.since w = true
  ended : ∀ w worker, h.kernel.workers w = some worker →
    worker.phase.outcome = some (some .cancelled) → h.since w = true

variable {owner : Nat → String}

theorem Phase.unfinished_of_inTurn {p : Phase} (h : p.inTurn = true) : p.unfinished = true := by
  cases p <;> first | rfl | cases h

variable {k k' : Kernel} {h : CancelHistory} {w c : Nat} {act : TurnAct}

theorem turn_view (hstep : k.turn w act = some k') :
    ∃ worker entry v', k.workers w = some worker ∧ k.entries worker.entry = some entry ∧
      (k.view worker entry).step w worker k.flags k.tokens act = some v' ∧
      k'.workers w = some { worker with phase := v'.phase } := by
  unfold Kernel.turn at hstep
  split at hstep
  · cases hstep
  · rename_i worker hworker
    split at hstep
    · cases hstep
    · rename_i entry hentry
      obtain ⟨v', hv, rfl⟩ := Option.map_eq_some_iff.mp hstep
      exact ⟨worker, entry, v', hworker, hentry, hv, update_self ..⟩

theorem check_observes (hk : Wired k) (hstep : k.turn w .check = some k')
    (hflag : ∀ worker, k.workers w = some worker → worker.phase.inTurn = true →
      k.flags worker.entry = true) :
    ∃ worker, k'.workers w = some worker ∧
      (worker.phase = .ended (some .cancelled) ∨ worker.phase = .ended (some .maxIterations)) := by
  obtain ⟨worker, entry, v', hworker, hentry, hv, hworker'⟩ := turn_view hstep
  refine ⟨_, hworker', ?_⟩
  have hbuilt : entry.runtime.cancelSignal = worker.entry :=
    (hk.entry _ entry hentry).2.runtimeFlag
  simp only [TurnView.step] at hv
  split at hv
  · rename_i iterations hphase
    have hphase' : worker.phase = .loopHead iterations := hphase
    have hset : k.flags entry.runtime.cancelSignal = true := by
      rw [hbuilt]
      apply hflag worker hworker
      rw [hphase']
      rfl
    cases hv
    unfold TurnView.check
    split
    · exact .inr rfl
    · left
      change (if (k.flags entry.runtime.cancelSignal || _) = true then _ else _ :
        TurnView).phase = _
      rw [hset, Bool.true_or, if_pos rfl]
  · cases hv

theorem proxyCheck_observes (hk : Wired k) (hstep : k.turn w .proxyCheck = some k')
    (hflag : ∀ worker, k.workers w = some worker → worker.phase.inTurn = true →
      k.flags worker.entry = true) :
    ∃ worker call, k'.workers w = some worker ∧
      worker.phase = .toolReturned call "turn cancelled before proxy dispatch" true := by
  obtain ⟨worker, entry, v', hworker, hentry, hv, hworker'⟩ := turn_view hstep
  have hbuilt : entry.runtime.executor.cancelFlag = worker.entry :=
    (hk.entry _ entry hentry).2.executorFlag
  simp only [TurnView.step] at hv
  split at hv
  · rename_i call hphase
    have hphase' : worker.phase = .proxyEntry call := hphase
    have hset : k.flags entry.runtime.executor.cancelFlag = true := by
      rw [hbuilt]
      apply hflag worker hworker
      rw [hphase']
      rfl
    refine ⟨_, call, hworker', ?_⟩
    cases hv
    unfold TurnView.proxyCheck
    change (if (k.flags entry.runtime.executor.cancelFlag || _) = true then _ else _ :
      TurnView).phase = _
    rw [hset, Bool.true_or, if_pos rfl]
  · cases hv

theorem CancelInv.cancelsHit (hinv : CancelInv owner h) : CancelsHit h := by
  refine ⟨fun w k' howed hstep => ?_, fun w k' howed hstep => ?_, hinv.ended⟩
  · apply check_observes hinv.maps.wired hstep
    intro worker hworker hturn
    exact hinv.owed w worker hworker hturn howed
  · apply proxyCheck_observes hinv.maps.wired hstep
    intro worker hworker hturn
    exact hinv.owed w worker hworker hturn howed

/-- What the workers carry over a step that writes no signal. -/
def Carried (k k' : Kernel) : Prop :=
  ∀ w worker', k'.workers w = some worker' → ∃ worker, k.workers w = some worker ∧
    worker'.sessionId = worker.sessionId ∧ worker'.entry = worker.entry ∧
    (worker'.phase.unfinished = true → worker.phase.unfinished = true) ∧
    (worker'.phase.inTurn = true → worker.phase.inTurn = true ∨ worker.phase = .queued) ∧
    (worker'.phase = .queued → worker.phase = .queued) ∧
    (worker'.phase.outcome = some (some .cancelled) →
      worker.phase.outcome = some (some .cancelled) ∨ (worker.phase.unfinished = true ∧
        (k.flags worker.entry = true ∨ k.tokens worker.entry = true)))

theorem Aside.carried (hq : Aside k k') : Carried k k' := by
  intro w worker hworker
  rw [hq.workers] at hworker
  exact ⟨worker, hworker, rfl, rfl, id, .inl, id, .inl⟩

theorem turn_carried (hk : Wired k) (hstep : k.turn w act = some k') : Carried k k' := by
  obtain ⟨worker, entry, v', hworker, hentry, heffect, rfl⟩ := Kernel.turn_cases hstep
  have hbuilt := (hk.entry _ entry hentry).2
  have hsignal : entry.runtime.cancelSignal = worker.entry := hbuilt.runtimeFlag
  have htoken : entry.runtime.cancelToken = worker.entry := hbuilt.runtimeToken
  intro w' worker' hworker'
  rcases Kernel.put_worker hworker' with ⟨rfl, rfl⟩ | ⟨-, hold⟩
  · refine ⟨worker, hworker, rfl, rfl, heffect.unfinished, heffect.inTurn,
      fun hqueued => absurd hqueued heffect.notQueued, fun hcancelled => ?_⟩
    rcases heffect.outcome hcancelled with hold | ⟨hun, hset⟩
    · exact .inl hold
    · right
      change (k.flags entry.runtime.cancelSignal || k.tokens entry.runtime.cancelToken) = true
        at hset
      rw [hsignal, htoken, Bool.or_eq_true] at hset
      exact ⟨hun, hset⟩
  · exact ⟨worker', hold, rfl, rfl, id, .inl, id, .inl⟩

theorem Quiet.detached (hq : Quiet k k') {flag token : Nat} (h : Detached k flag token) :
    Detached k' flag token := by
  obtain ⟨hlt, hown⟩ := h
  refine ⟨Nat.lt_of_lt_of_le hlt hq.next, ?_⟩
  rcases hown with heq | hnone
  · exact .inl heq
  · right
    have hmap := hq.entries token
    rw [hnone, Option.map_none, Option.map_eq_none_iff] at hmap
    exact hmap

theorem CancelInv.frame (hinv : CancelInv owner h) {owed' : Nat → Bool} (hq : Quiet h.kernel k')
    (hcarried : Carried h.kernel k') (hflags : k'.flags = h.kernel.flags)
    (htokens : k'.tokens = h.kernel.tokens) (hcancels : k'.cancels = h.kernel.cancels)
    (howed : ∀ w, owed' w = true → h.owed w = true) : CancelInv owner ⟨k', owed', h.since⟩ := by
  have hnext := hq.next
  constructor
  case maps => exact hinv.maps.quiet hq
  case owned => exact hinv.owned.quiet hq
  case token =>
    intro sid s hs
    change k'.shared sid = some s at hs
    rw [hq.shared] at hs
    exact hq.detached (hinv.token sid s hs)
  case call =>
    intro c call hcall
    change k'.cancels c = some call at hcall
    rw [hcancels] at hcall
    obtain ⟨hlt, hflag, howner, hdetached⟩ := hinv.call c call hcall
    exact ⟨Nat.lt_of_lt_of_le hlt hnext, Nat.lt_of_lt_of_le hflag hnext, howner,
      hq.detached hdetached⟩
  case callLive =>
    intro c call handle hcall hstage hhandle
    change k'.cancels c = some call at hcall
    change k'.sessions call.sessionId = some handle at hhandle
    rw [hcancels] at hcall
    rw [hq.sessions] at hhandle
    exact hinv.callLive c call handle hcall hstage hhandle
  case callWorker =>
    intro c call w worker' hcall hstage hworker' hun hsid
    change k'.cancels c = some call at hcall
    rw [hcancels] at hcall
    obtain ⟨worker, hworker, hsame, hentry, hback, -⟩ := hcarried w worker' hworker'
    rw [hentry]
    exact hinv.callWorker c call w worker hcall hstage hworker (hback hun) (hsame ▸ hsid)
  case live =>
    intro sid handle w worker' hhandle hworker' hun hsid
    change k'.sessions sid = some handle at hhandle
    rw [hq.sessions] at hhandle
    obtain ⟨worker, hworker, hsame, hentry, hback, -⟩ := hcarried w worker' hworker'
    rw [hentry]
    exact hinv.live sid handle w worker hhandle hworker (hback hun) (hsame ▸ hsid)
  case stored =>
    intro c call hcall hstage
    change k'.cancels c = some call at hcall
    change k'.flags call.flag = true
    rw [hcancels] at hcall
    rw [hflags]
    exact hinv.stored c call hcall hstage
  case queued =>
    intro w worker' hworker' hqueued
    obtain ⟨worker, hworker, -, -, -, -, hback, -⟩ := hcarried w worker' hworker'
    have hnot := hinv.queued w worker hworker (hback hqueued)
    rcases hnew : owed' w with - | -
    · exact hnew
    · rw [howed w hnew] at hnot
      cases hnot
  case owed =>
    intro w worker' hworker' hturn hset
    obtain ⟨worker, hworker, -, hentry, -, hback, -⟩ := hcarried w worker' hworker'
    change k'.flags worker'.entry = true
    rw [hflags, hentry]
    rcases hback hturn with hold | hqueued
    · exact hinv.owed w worker hworker hold (howed w hset)
    · have hnot := hinv.queued w worker hworker hqueued
      rw [howed w hset] at hnot
      cases hnot
  case since =>
    intro w worker' hworker' hun hset
    obtain ⟨worker, hworker, -, hentry, hback, -⟩ := hcarried w worker' hworker'
    change k'.flags worker'.entry = true ∨ k'.tokens worker'.entry = true at hset
    rw [hflags, htokens, hentry] at hset
    exact hinv.since w worker hworker (hback hun) hset
  case ended =>
    intro w worker' hworker' hcancelled
    obtain ⟨worker, hworker, -, -, -, -, -, hback⟩ := hcarried w worker' hworker'
    rcases hback hcancelled with hold | ⟨hun, hset⟩
    · exact hinv.ended w worker hworker hold
    · exact hinv.since w worker hworker hun hset

variable {worker : Worker} {since : Nat → Bool} {a : Action}

theorem worker_entry_lt (hk : Wired k) (hworker : k.workers w = some worker) :
    worker.entry < k.next := by
  obtain ⟨-, e, he⟩ := hk.worker w worker hworker
  exact (hk.entry _ e he).1

theorem CancelInv.build (hinv : CancelInv owner h) (session : Session)
    (hsettled : Settled h.kernel session.sessionId) (disk : SessionTree) (record : SessionRecord)
    (maxIterations : Option Nat) (channels msgCount : Nat) (stamps : SaveStamps) :
    CancelInv (Function.update owner h.kernel.next session.sessionId)
      ⟨{ h.kernel with disk }.install session.sessionId session record maxIterations channels
        msgCount stamps, h.owed, h.since⟩ := by
  obtain ⟨hworkers, hcalls⟩ := hsettled
  have hwired := Kernel.withDisk_wired hinv.maps.wired disk
  have hlt : ∀ {w worker}, h.kernel.workers w = some worker → worker.entry ≠ h.kernel.next :=
    fun hworker => Nat.ne_of_lt (worker_entry_lt hinv.maps.wired hworker)
  have hdetached : ∀ {flag token}, Detached h.kernel flag token →
      Detached ({ h.kernel with disk }.install session.sessionId session record maxIterations
        channels msgCount stamps) flag token := by
    rintro flag token ⟨htoken, hown⟩
    refine ⟨Nat.lt_succ_of_lt htoken, hown.imp_right fun hnone => ?_⟩
    rw [Kernel.install_entries, update_of_ne (Nat.ne_of_lt htoken)]
    exact hnone
  constructor
  case maps => exact (hinv.maps.withDisk disk).install ..
  case owned =>
    exact OwnedBy.install hwired ⟨hinv.owned.handle, hinv.owned.worker⟩ ..
  case token =>
    intro sid s hs
    rcases update_eq_some hs with ⟨rfl, hnew⟩ | ⟨-, hold⟩
    · cases hnew
      exact ⟨Nat.lt_succ_self _, .inl rfl⟩
    · exact hdetached (hinv.token sid s hold)
  case call =>
    intro c call hcall
    obtain ⟨hc, hflag, howner, htoken⟩ := hinv.call c call hcall
    refine ⟨Nat.lt_succ_of_lt hc, Nat.lt_succ_of_lt hflag, ?_, hdetached htoken⟩
    rw [update_of_ne (Nat.ne_of_lt hflag)]
    exact howner
  case callLive =>
    intro c call handle hcall hstage hhandle
    rcases update_eq_some hhandle with ⟨hsid, -⟩ | ⟨-, hold⟩
    · exact absurd (hcalls c call hcall hsid) hstage
    · exact hinv.callLive c call handle hcall hstage hold
  case callWorker => exact hinv.callWorker
  case live =>
    intro sid handle w worker hhandle hworker hun hsid
    rcases update_eq_some hhandle with ⟨rfl, -⟩ | ⟨-, hold⟩
    · rw [hworkers w worker hworker hsid] at hun
      cases hun
    · exact hinv.live sid handle w worker hold hworker hun hsid
  case stored =>
    intro c call hcall hstage
    have hflag := (hinv.call c call hcall).2.1
    change Function.update h.kernel.flags h.kernel.next false call.flag = true
    rw [update_of_ne (Nat.ne_of_lt hflag)]
    exact hinv.stored c call hcall hstage
  case queued => exact hinv.queued
  case owed =>
    intro w worker hworker hturn hset
    change Function.update h.kernel.flags h.kernel.next false worker.entry = true
    rw [update_of_ne (hlt hworker)]
    exact hinv.owed w worker hworker hturn hset
  case since =>
    intro w worker hworker hun hset
    change Function.update h.kernel.flags h.kernel.next false worker.entry = true ∨
      Function.update h.kernel.tokens h.kernel.next false worker.entry = true at hset
    rw [update_of_ne (hlt hworker), update_of_ne (hlt hworker)] at hset
    exact hinv.since w worker hworker hun hset
  case ended => exact hinv.ended

theorem CancelInv.fresh (hinv : CancelInv owner h) :
    CancelInv owner ⟨h.kernel, Function.update h.owed h.kernel.next false,
      Function.update h.since h.kernel.next false⟩ := by
  have hold : ∀ {w worker} (f : Nat → Bool), h.kernel.workers w = some worker →
      Function.update f h.kernel.next false w = f w := by
    intro w worker f hworker
    exact update_of_ne (Nat.ne_of_lt (hinv.maps.wired.worker w worker hworker).1) ..
  refine { hinv with
    queued := fun w worker hworker hqueued => ?_
    owed := fun w worker hworker hturn hset => ?_
    since := fun w worker hworker hun hset => ?_
    ended := fun w worker hworker hcancelled => ?_ }
  · exact (hold h.owed hworker).trans (hinv.queued w worker hworker hqueued)
  · exact hinv.owed w worker hworker hturn ((hold h.owed hworker).symm.trans hset)
  · exact (hold h.since hworker).trans (hinv.since w worker hworker hun hset)
  · exact (hold h.since hworker).trans (hinv.ended w worker hworker hcancelled)

theorem CancelInv.started (hinv : CancelInv owner h) {sid text : String} {ctx : Option String}
    (hok : CancelStepOk h (.runTurnStreaming sid text ctx)) :
    CancelInv owner ⟨h.kernel.runTurnStreaming sid text ctx,
      Function.update h.owed h.kernel.next false, Function.update h.since h.kernel.next false⟩ := by
  have hinv' := hinv.fresh
  have hmaps := hinv.maps.runTurnStreaming sid text ctx
  have howned := hinv.owned.runTurnStreaming sid text ctx
  unfold Kernel.runTurnStreaming at hmaps howned ⊢
  rcases hold : h.kernel.sessions sid with - | old
  · exact hinv'
  rw [hold] at hmaps howned
  obtain ⟨hclear, hsettled, hnotStored⟩ := hok old hold
  obtain ⟨⟨entry, hentry⟩, hflag, -, -⟩ := hinv.maps.wired.handle sid old hold
  obtain ⟨holdlt, hbuilt⟩ := hinv.maps.wired.entry _ entry hentry
  have howner := hinv.owned.handle sid old hold
  have htoken : h.kernel.tokens old.entry = false := by
    have hruntime : entry.runtime.cancelToken = old.entry := hbuilt.runtimeToken
    rw [← hruntime]
    exact hclear entry hentry
  have hnone : h.kernel.entries h.kernel.next = none := by
    rcases hnext : h.kernel.entries h.kernel.next with - | e
    · rfl
    · exact absurd (hinv.maps.wired.entry _ e hnext).1 (Nat.lt_irrefl _)
  have hsame : ∀ {w worker}, h.kernel.workers w = some worker → worker.entry = old.entry →
      worker.sessionId = sid := by
    intro w worker hworker heq
    rw [← hinv.owned.worker w worker hworker, heq, howner]
  have hlt : ∀ {w worker}, h.kernel.workers w = some worker → worker.entry ≠ h.kernel.next :=
    fun hworker => Nat.ne_of_lt (worker_entry_lt hinv.maps.wired hworker)
  constructor
  case maps => exact hmaps
  case owned => exact howned
  case token =>
    intro sid' s hs
    rcases update_eq_some hs with ⟨rfl, hnew⟩ | ⟨-, hs'⟩
    · obtain ⟨s₀, -, rfl⟩ := Option.map_eq_some_iff.mp hnew
      exact ⟨Nat.lt_succ_self _, .inr hnone⟩
    · obtain ⟨hlt', hown⟩ := hinv.token sid' s hs'
      exact ⟨Nat.lt_succ_of_lt hlt', hown⟩
  case call =>
    intro c call hcall
    obtain ⟨hc, hcflag, hcowner, hct, hdetached⟩ := hinv.call c call hcall
    exact ⟨Nat.lt_succ_of_lt hc, Nat.lt_succ_of_lt hcflag, hcowner, Nat.lt_succ_of_lt hct,
      hdetached⟩
  case callLive =>
    intro c call handle hcall hstage hhandle
    rcases update_eq_some hhandle with ⟨hsid, hnew⟩ | ⟨-, hhandle'⟩
    · cases hnew
      exact hinv.callLive c call old hcall hstage (hsid ▸ hold)
    · exact hinv.callLive c call handle hcall hstage hhandle'
  case callWorker =>
    intro c call w worker hcall hstage hworker hun hsid
    rcases update_eq_some hworker with ⟨-, hnew⟩ | ⟨-, hworker'⟩
    · cases hnew
      have hlive : h.kernel.sessions call.sessionId = some old := by
        rw [← hsid]
        exact hold
      exact (hinv.callLive c call old hcall hstage hlive).symm
    · exact hinv.callWorker c call w worker hcall hstage hworker' hun hsid
  case live =>
    intro sid' handle w worker hhandle hworker hun hsid
    have hentry' : ∃ handle', h.kernel.sessions sid' = some handle' ∧
        handle'.entry = handle.entry := by
      rcases update_eq_some hhandle with ⟨rfl, hnew⟩ | ⟨-, hhandle'⟩
      · cases hnew
        exact ⟨old, hold, rfl⟩
      · exact ⟨handle, hhandle', rfl⟩
    obtain ⟨handle', hhandle', hsame'⟩ := hentry'
    rw [← hsame']
    rcases update_eq_some hworker with ⟨-, hnew⟩ | ⟨-, hworker'⟩
    · cases hnew
      rw [← hsid, hold] at hhandle'
      cases hhandle'
      rfl
    · exact hinv.live sid' handle' w worker hhandle' hworker' hun hsid
  case stored =>
    intro c call hcall hstage
    have hne : call.flag ≠ old.cancelFlag := by
      intro heq
      have hcowner := (hinv.call c call hcall).2.2.1
      rw [heq, hflag, howner] at hcowner
      exact hnotStored c call hcall hcowner.symm hstage
    change Function.update h.kernel.flags old.cancelFlag false call.flag = true
    rw [update_of_ne hne]
    exact hinv.stored c call hcall hstage
  case queued =>
    intro w worker hworker hqueued
    rcases update_eq_some hworker with ⟨rfl, -⟩ | ⟨-, hworker'⟩
    · exact update_self ..
    · exact hinv'.queued w worker hworker' hqueued
  case owed =>
    intro w worker hworker hturn hset
    rcases update_eq_some hworker with ⟨rfl, hnew⟩ | ⟨-, hworker'⟩
    · cases hnew
      cases hturn
    · change Function.update h.kernel.flags old.cancelFlag false worker.entry = true
      have hne : worker.entry ≠ old.cancelFlag := by
        intro heq
        have hrunning : running h.kernel sid w = true := by
          rw [running, hworker', Option.any_some, hturn, hsame hworker' (heq.trans hflag)]
          simp
        have hnot := hsettled w hrunning
        have hw := (hinv.maps.wired.worker w worker hworker').1
        change Function.update h.owed h.kernel.next false w = true at hset
        rw [update_of_ne (Nat.ne_of_lt hw), hnot] at hset
        cases hset
      rw [update_of_ne hne]
      exact hinv'.owed w worker hworker' hturn hset
  case since =>
    intro w worker hworker hun hset
    change Function.update h.kernel.flags old.cancelFlag false worker.entry = true ∨
      Function.update h.kernel.tokens h.kernel.next false worker.entry = true at hset
    rw [hflag] at hset
    rcases update_eq_some hworker with ⟨rfl, hnew⟩ | ⟨-, hworker'⟩
    · cases hnew
      dsimp only at hset
      rw [update_self, update_of_ne (Nat.ne_of_lt holdlt), htoken] at hset
      simp at hset
    · rw [update_of_ne (hlt hworker')] at hset
      apply hinv'.since w worker hworker' hun
      rcases eq_or_ne worker.entry old.entry with heq | hne
      · rw [heq, update_self] at hset
        right
        rw [heq]
        exact hset.resolve_left (by simp)
      · rwa [update_of_ne hne] at hset
  case ended =>
    intro w worker hworker hcancelled
    rcases update_eq_some hworker with ⟨-, hnew⟩ | ⟨-, hworker'⟩
    · cases hnew
      cases hcancelled
    · exact hinv'.ended w worker hworker' hcancelled

theorem CancelInv.remove (hinv : CancelInv owner h) (sid : String) :
    CancelInv owner ⟨h.kernel.remove sid, h.owed, h.since⟩ := by
  have hsessions : ∀ {sid' handle}, (h.kernel.remove sid).sessions sid' = some handle →
      h.kernel.sessions sid' = some handle := by
    intro sid' handle hhandle
    rcases update_eq_some hhandle with ⟨-, hnone⟩ | ⟨-, hold⟩
    · cases hnone
    · exact hold
  refine { hinv with
    maps := hinv.maps.remove sid
    owned := hinv.owned.remove sid
    token := fun sid' s hs => ?_
    callLive := fun c call handle hcall hstage hhandle =>
      hinv.callLive c call handle hcall hstage (hsessions hhandle)
    live := fun sid' handle w worker hhandle =>
      hinv.live sid' handle w worker (hsessions hhandle) }
  rcases update_eq_some hs with ⟨-, hnone⟩ | ⟨-, hold⟩
  · cases hnone
  · exact hinv.token sid' s hold

theorem CancelInv.restart (hinv : CancelInv owner h) :
    CancelInv owner ⟨h.kernel.restart, fun _ => false, fun _ => false⟩ := by
  have hmaps : MapsInv h.kernel.restart := hinv.maps.step (a := .restart) rfl trivial
  constructor
  case maps => exact hmaps
  case owned =>
    exact ⟨by simp [Kernel.restart, Kernel.start], by simp [Kernel.restart, Kernel.start]⟩
  all_goals simp [Kernel.restart, Kernel.start]

/-- `cancel_turn` reads the signals of the runtime its id was last built with. -/
theorem CancelInv.cancelCall (hinv : CancelInv owner h) (sid : String) :
    CancelInv owner ⟨h.kernel.cancelCall sid, h.owed, h.since⟩ := by
  unfold Kernel.cancelCall
  rcases hstate : h.kernel.shared sid with - | state
  · exact hinv
  rcases hsession : h.kernel.sessions sid with - | handle
  · rw [hinv.maps.absent sid hsession] at hstate
    cases hstate
  obtain ⟨state', hstate', -, hflag⟩ := hinv.maps.linked sid handle hsession
  cases hstate.symm.trans hstate'
  obtain ⟨-, hflaglt, -⟩ := hinv.maps.wired.shared sid state hstate
  have hq : Aside h.kernel { h.kernel with
      next := h.kernel.next + 1
      cancels := Function.update h.kernel.cancels h.kernel.next
        (some ⟨sid, state.cancelFlag, state.cancelToken, .snapshot⟩) } :=
    ⟨rfl, rfl, Nat.le_succ _, rfl, rfl⟩
  refine { hinv with
    maps := hinv.maps.quiet hq.quiet
    owned := hinv.owned.quiet hq.quiet
    token := fun sid' s hs => hq.quiet.detached (hinv.token sid' s hs)
    call := ?call, callLive := ?callLive, callWorker := ?callWorker, stored := ?stored }
  case call =>
    intro c call hcall
    rcases update_eq_some hcall with ⟨rfl, hnew⟩ | ⟨-, hold⟩
    · cases hnew
      refine ⟨Nat.lt_succ_self _, Nat.lt_succ_of_lt hflaglt, ?_,
        hq.quiet.detached (hinv.token sid state hstate)⟩
      rw [hflag]
      exact hinv.owned.handle sid handle hsession
    · obtain ⟨hc, hcflag, howner, htoken⟩ := hinv.call c call hold
      exact ⟨Nat.lt_succ_of_lt hc, Nat.lt_succ_of_lt hcflag, howner, hq.quiet.detached htoken⟩
  case callLive =>
    intro c call handle' hcall hstage hhandle
    rcases update_eq_some hcall with ⟨rfl, hnew⟩ | ⟨-, hold⟩
    · cases hnew
      cases hsession.symm.trans hhandle
      exact hflag
    · exact hinv.callLive c call handle' hold hstage hhandle
  case callWorker =>
    intro c call w worker hcall hstage hworker hun hsid
    rcases update_eq_some hcall with ⟨rfl, hnew⟩ | ⟨-, hold⟩
    · cases hnew
      exact (hinv.live sid handle w worker hsession hworker hun hsid).trans hflag.symm
    · exact hinv.callWorker c call w worker hold hstage hworker hun hsid
  case stored =>
    intro c call hcall hstage
    rcases update_eq_some hcall with ⟨rfl, hnew⟩ | ⟨-, hold⟩
    · cases hnew
      cases hstage
    · exact hinv.stored c call hold hstage

theorem signalled_of_since (h : since w = true) :
    signalled k since c w = true := by
  unfold signalled
  split
  · exact h
  · rw [h, Bool.true_or]

theorem signalled_of_session {call : CancelCall} (hcall : k.cancels c = some call)
    (hworker : k.workers w = some worker) (hsid : worker.sessionId = call.sessionId) :
    signalled k since c w = true := by
  rw [signalled, hcall]
  dsimp only
  rw [hworker, Option.any_some, hsid, decide_eq_true rfl, Bool.or_true]

theorem CancelInv.cancelStore (hinv : CancelInv owner h)
    (hstep : h.kernel.cancelStore c = some k') :
    CancelInv owner ⟨k', h.owed, signalled h.kernel h.since c⟩ := by
  unfold Kernel.cancelStore at hstep
  split at hstep
  case h_2 => cases hstep
  rename_i sid flag token hcall
  cases hstep
  have hset : ∀ r, h.kernel.flags r = true → Function.update h.kernel.flags flag true r = true := by
    intro r hr
    rcases eq_or_ne r flag with rfl | hne
    · exact update_self ..
    · rwa [update_of_ne hne]
  have hq : Aside h.kernel { h.kernel with
      flags := Function.update h.kernel.flags flag true
      cancels := Function.update h.kernel.cancels c (some ⟨sid, flag, token, .stored⟩) } :=
    ⟨rfl, rfl, Nat.le_refl _, rfl, rfl⟩
  refine { hinv with
    maps := hinv.maps.quiet hq.quiet
    owned := hinv.owned.quiet hq.quiet
    owed := fun w worker hworker hturn howed => hset _ (hinv.owed w worker hworker hturn howed)
    ended := fun w worker hworker hcancelled =>
      signalled_of_since (hinv.ended w worker hworker hcancelled)
    call := ?call, callLive := ?callLive, callWorker := ?callWorker, stored := ?stored
    since := ?since }
  case call =>
    intro c' call hcall'
    rcases update_eq_some hcall' with ⟨rfl, hnew⟩ | ⟨-, hold⟩
    · cases hnew
      exact hinv.call c' ⟨sid, flag, token, .snapshot⟩ hcall
    · exact hinv.call c' call hold
  case callLive =>
    intro c' call handle hcall' hstage hhandle
    rcases update_eq_some hcall' with ⟨rfl, hnew⟩ | ⟨-, hold⟩
    · cases hnew
      exact hinv.callLive c' ⟨sid, flag, token, .snapshot⟩ handle hcall (by simp) hhandle
    · exact hinv.callLive c' call handle hold hstage hhandle
  case callWorker =>
    intro c' call w worker hcall' hstage hworker hun hsid
    rcases update_eq_some hcall' with ⟨rfl, hnew⟩ | ⟨-, hold⟩
    · cases hnew
      exact hinv.callWorker c' ⟨sid, flag, token, .snapshot⟩ w worker hcall (by simp) hworker
        hun hsid
    · exact hinv.callWorker c' call w worker hold hstage hworker hun hsid
  case stored =>
    intro c' call hcall' hstage
    rcases update_eq_some hcall' with ⟨rfl, hnew⟩ | ⟨-, hold⟩
    · cases hnew
      exact update_self ..
    · exact hset _ (hinv.stored c' call hold hstage)
  case since =>
    intro w worker hworker hun hsignal
    change Function.update h.kernel.flags flag true worker.entry = true ∨ _ at hsignal
    rcases eq_or_ne worker.entry flag with heq | hne
    · apply signalled_of_session hcall hworker
      have howner := (hinv.call c _ hcall).2.2.1
      rw [← hinv.owned.worker w worker hworker, heq]
      exact howner
    · rw [update_of_ne hne] at hsignal
      exact signalled_of_since (hinv.since w worker hworker hun hsignal)

theorem CancelInv.cancelToken (hinv : CancelInv owner h)
    (hstep : h.kernel.cancelToken c = some k') :
    CancelInv owner ⟨k', owedAfter h.kernel h.owed (.cancelToken c),
      signalled h.kernel h.since c⟩ := by
  unfold Kernel.cancelToken at hstep
  split at hstep
  case h_2 => cases hstep
  rename_i sid flag token hcall
  cases hstep
  have howedAfter : owedAfter h.kernel h.owed (.cancelToken c) =
      fun w => h.owed w || running h.kernel sid w := by
    simp only [owedAfter, hcall]
  have hq : Aside h.kernel { h.kernel with
      tokens := Function.update h.kernel.tokens token true
      cancels := Function.update h.kernel.cancels c (some ⟨sid, flag, token, .returned⟩) } :=
    ⟨rfl, rfl, Nat.le_refl _, rfl, rfl⟩
  rw [howedAfter]
  refine { hinv with
    maps := hinv.maps.quiet hq.quiet
    owned := hinv.owned.quiet hq.quiet
    ended := fun w worker hworker hcancelled =>
      signalled_of_since (hinv.ended w worker hworker hcancelled)
    call := ?call, callLive := ?callLive, callWorker := ?callWorker, stored := ?stored
    queued := ?queued, owed := ?owed, since := ?since }
  case call =>
    intro c' call hcall'
    rcases update_eq_some hcall' with ⟨rfl, hnew⟩ | ⟨-, hold⟩
    · cases hnew
      exact hinv.call c' ⟨sid, flag, token, .stored⟩ hcall
    · exact hinv.call c' call hold
  case callLive =>
    intro c' call handle hcall' hstage hhandle
    rcases update_eq_some hcall' with ⟨rfl, hnew⟩ | ⟨-, hold⟩
    · cases hnew
      exact absurd rfl hstage
    · exact hinv.callLive c' call handle hold hstage hhandle
  case callWorker =>
    intro c' call w worker hcall' hstage hworker hun hsid
    rcases update_eq_some hcall' with ⟨rfl, hnew⟩ | ⟨-, hold⟩
    · cases hnew
      exact absurd rfl hstage
    · exact hinv.callWorker c' call w worker hold hstage hworker hun hsid
  case stored =>
    intro c' call hcall' hstage
    rcases update_eq_some hcall' with ⟨rfl, hnew⟩ | ⟨-, hold⟩
    · cases hnew
      cases hstage
    · exact hinv.stored c' call hold hstage
  case queued =>
    intro w worker hworker hqueued
    change (h.owed w || running h.kernel sid w) = false
    rw [hinv.queued w worker hworker hqueued, Bool.false_or, running, hworker, Option.any_some,
      hqueued]
    exact Bool.and_false _
  case owed =>
    intro w worker hworker hturn howed
    rw [Bool.or_eq_true] at howed
    rcases howed with hold | hrunning
    · exact hinv.owed w worker hworker hturn hold
    · rw [running, hworker, Option.any_some, Bool.and_eq_true, decide_eq_true_eq] at hrunning
      have hentry : worker.entry = flag := hinv.callWorker c _ w worker hcall (by simp) hworker
        (Phase.unfinished_of_inTurn hturn) hrunning.1
      change h.kernel.flags worker.entry = true
      rw [hentry]
      exact hinv.stored c _ hcall rfl
  case since =>
    intro w worker hworker hun hsignal
    change _ ∨ Function.update h.kernel.tokens token true worker.entry = true at hsignal
    rcases eq_or_ne worker.entry token with heq | hne
    · apply signalled_of_session hcall hworker
      obtain ⟨-, -, howner, -, hown⟩ := hinv.call c _ hcall
      rcases hown with hsame | hnone
      · rw [← hinv.owned.worker w worker hworker, heq]
        exact (congrArg owner hsame).trans howner
      · obtain ⟨-, e, he⟩ := hinv.maps.wired.worker w worker hworker
        rw [heq] at he
        cases hnone.symm.trans he
    · rw [update_of_ne hne] at hsignal
      exact signalled_of_since (hinv.since w worker hworker hun hsignal)

def Action.isCancel : Action → Bool
  | .cancelCall _ | .cancelStore _ | .cancelToken _ => true
  | _ => false

theorem step_uncancelled (h : k.step a = some k') (haside : a.isAside = true)
    (ha : a.isCancel = false) :
    k'.flags = k.flags ∧ k'.tokens = k.tokens ∧ k'.cancels = k.cancels := by
  cases a with
  | deliverCall sid iid payload =>
    cases h
    unfold Kernel.deliverCall
    split <;> exact ⟨rfl, rfl, rfl⟩
  | deliverTake d =>
    simp only [Kernel.step, Kernel.deliverTake] at h
    split at h
    · split at h <;> cases h <;> exact ⟨rfl, rfl, rfl⟩
    · cases h
  | deliverSend d =>
    simp only [Kernel.step, Kernel.deliverSend] at h
    split at h <;> cases h
    exact ⟨rfl, rfl, rfl⟩
  | receive c =>
    cases h
    exact ⟨rfl, rfl, rfl⟩
  | dropReceivers c =>
    cases h
    exact ⟨rfl, rfl, rfl⟩
  | changeDisk disk =>
    cases h
    exact ⟨rfl, rfl, rfl⟩
  | cancelCall _ => cases ha
  | cancelStore _ => cases ha
  | cancelToken _ => cases ha
  | _ => cases haside

theorem owedAfter_turn {owed : Nat → Bool} {w' : Nat}
    (h : owedAfter k owed (.turn w act) w' = true) :
    owed w' = true := by
  have hsettled : Function.update owed w false w' = true → owed w' = true := by
    intro hset
    rcases eq_or_ne w' w with rfl | hne
    · rw [update_self] at hset
      cases hset
    · rwa [update_of_ne hne] at hset
  cases act with
  | check => exact hsettled h
  | proxyCheck => exact hsettled h
  | _ => exact h

/-- A step that meets the condition keeps the invariant. -/
theorem CancelInv.step {h' : CancelHistory} (hinv : CancelInv owner h) (hstep : h.step a = some h')
    (hok : CancelStepOk h a) : ∃ owner', CancelInv owner' h' := by
  obtain ⟨k', hk', rfl⟩ := Option.map_eq_some_iff.mp hstep
  cases a using Action.byKind with
  | create req stamps =>
    cases hk'
    exact ⟨_, hinv.build _ hok ..⟩
  | resume req stamps =>
    cases hk'
    rcases hsession : h.kernel.sessions req.sessionId with - | handle
    · obtain ⟨hfile, hsettled⟩ := hok hsession
      obtain ⟨record, hbuilt⟩ := Kernel.resume_builds hsession stamps
      have hid := (resumedSession_id_iff h.kernel.disk req stamps).mpr hfile
      rw [hbuilt, ← hid]
      exact ⟨_, hinv.build _ (hid.symm ▸ hsettled) ..⟩
    · rw [Kernel.resume_live hsession stamps]
      exact ⟨owner, hinv⟩
  | runTurnStreaming sid text ctx =>
    cases hk'
    exact ⟨owner, hinv.started hok⟩
  | remove sid =>
    cases hk'
    exact ⟨owner, hinv.remove sid⟩
  | restart =>
    cases hk'
    exact ⟨owner, hinv.restart⟩
  | turn w act =>
    have hq := Kernel.turn_quiet hk'
    have hcarried := turn_carried hinv.maps.wired hk'
    obtain ⟨worker, entry, v', -, -, -, rfl⟩ := Kernel.turn_cases hk'
    exact ⟨owner, hinv.frame hq hcarried rfl rfl rfl fun _ => owedAfter_turn⟩
  | aside a haside =>
    have hq := Kernel.step_aside hk' haside
    rcases hcancel : a.isCancel with - | -
    · obtain ⟨hflags, htokens, hcancels⟩ := step_uncancelled hk' haside hcancel
      have howed : owedAfter h.kernel h.owed a = h.owed := by
        cases a <;> first | rfl | (cases haside; done) | cases hcancel
      have hsince : sinceAfter h.kernel h.since a = h.since := by
        cases a <;> first | rfl | (cases haside; done) | cases hcancel
      rw [howed, hsince]
      exact ⟨owner, hinv.frame hq.quiet hq.carried hflags htokens hcancels fun _ => id⟩
    · refine ⟨owner, ?_⟩
      cases a with
      | cancelCall sid =>
        cases hk'
        exact hinv.cancelCall sid
      | cancelStore c => exact hinv.cancelStore hk'
      | cancelToken c => exact hinv.cancelToken hk'
      | _ => cases hcancel

/-- In every run whose steps meet the condition, cancels hit the turn in flight
and no other. -/
theorem cancels_hit_along (disk : SessionTree) (backend : SessionBackend) (acts : List Action)
    (hok : Meets CancelHistory.step CancelStepOk (.start disk backend) acts) :
    Along CancelHistory.step CancelsHit (.start disk backend) acts := by
  have hinit : ∃ owner, CancelInv owner (.start disk backend) := by
    refine ⟨fun _ => "", ?_⟩
    constructor
    case maps => exact mapsInv_start disk backend
    case owned => exact ⟨by simp [CancelHistory.start, Kernel.start],
      by simp [CancelHistory.start, Kernel.start]⟩
    all_goals simp [CancelHistory.start, Kernel.start]
  have halong : Along CancelHistory.step (fun h => ∃ owner, CancelInv owner h)
      (.start disk backend) acts := by
    refine hok.along ?_ hinit
    rintro h a h' ⟨owner, hinv⟩ hstep hcond
    exact hinv.step hstep hcond
  refine halong.mono ?_
  rintro h ⟨owner, hinv⟩
  exact hinv.cancelsHit

def firstTurn : List Action :=
  [.create ⟨"mock", none, 0, none, none⟩ ⟨1, ⟨2, 0⟩, 3, ⟨4, ⟨5, 1⟩, 6⟩, ⟨7, ⟨8, 2⟩, 9⟩⟩,
    .runTurnStreaming "session-2-0" "why is it slow?" none,
    .turn 1 .acquire, .turn 1 (.enter (.ok ()) ⟨11, ⟨12, ⟨13, 3⟩, 14⟩⟩)]

/-- A cancel of a running turn and the check that observes it. -/
theorem cancels_hit_along_first_turn :
    Along CancelHistory.step CancelsHit (.start .empty (.memory .new))
      (firstTurn ++ [.cancelCall "session-2-0", .cancelStore 2, .cancelToken 2,
        .turn 1 .check]) := by
  apply cancels_hit_along
  intro h₁ hcreate
  cases hcreate
  refine ⟨⟨fun w worker hworker => ?_, fun c call hcall => ?_⟩, fun h₂ _ =>
    ⟨fun handle _ => ⟨fun e _ => ?_, fun w hrunning => ?_, fun c call hcall => ?_⟩, ?_⟩⟩
  · cases hworker
  · cases hcall
  · change Function.update (fun _ => false) _ false e.runtime.cancelToken = false
    rw [update_apply]
    split <;> rfl
  · cases hrunning
  · cases hcall
  · exact fun _ _ => ⟨trivial, fun _ _ => ⟨trivial, fun _ _ => ⟨trivial, fun _ _ => ⟨trivial,
      fun _ _ => ⟨trivial, fun _ _ => ⟨trivial, trivial⟩⟩⟩⟩⟩⟩

def cancelBeforeFirstTurn : List Action :=
  let stamps : CommandStamps := ⟨1, ⟨2, 0⟩, 3, ⟨4, ⟨5, 1⟩, 6⟩, ⟨7, ⟨8, 2⟩, 9⟩⟩
  [.create ⟨"mock", none, 0, none, none⟩ stamps,
    .cancelCall "session-2-0", .cancelStore 1, .cancelToken 1,
    .runTurnStreaming "session-2-0" "why is it slow?" none, .turn 2 .acquire,
    .turn 2 (.enter (.ok ()) ⟨11, ⟨12, ⟨13, 3⟩, 14⟩⟩), .turn 2 .check]

def cancelThenNextTurn : List Action :=
  firstTurn ++ [.cancelCall "session-2-0", .cancelStore 2, .cancelToken 2,
    .runTurnStreaming "session-2-0" "and now?" none]

/-- A cancel before the first turn ends it, and starting the next turn resets
the flag a running turn has not read yet. -/
theorem cancels_miss :
    ¬ Along CancelHistory.step CancelsHit (.start .empty (.memory .new)) cancelBeforeFirstTurn ∧
      ¬ Along CancelHistory.step CancelsHit (.start .empty (.memory .new)) cancelThenNextTurn := by
  constructor
  · intro halong
    have hrun : (run CancelHistory.step (.start .empty (.memory .new)) cancelBeforeFirstTurn).any
        (fun h => h.since 2 = false ∧
          (h.kernel.workers 2).map Worker.phase = some (.ended (some .cancelled))) = true := by
      decide +kernel
    obtain ⟨h, hh, hfacts⟩ := (Option.any_eq_true _ _).mp hrun
    obtain ⟨hsince, hphase⟩ := of_decide_eq_true hfacts
    obtain ⟨worker, hworker, hended⟩ := Option.map_eq_some_iff.mp hphase
    have hset := (halong.last hh).earlier 2 worker hworker (by rw [hended]; rfl)
    rw [hsince] at hset
    cases hset
  · intro halong
    have hrun : (run CancelHistory.step (.start .empty (.memory .new)) cancelThenNextTurn).any
        (fun h => h.owed 1 = true ∧ ((h.kernel.turn 1 .check).bind (·.workers 1)).map Worker.phase =
          some (.streaming 1)) = true := by
      decide +kernel
    obtain ⟨h, hh, hfacts⟩ := (Option.any_eq_true _ _).mp hrun
    obtain ⟨howed, hphase⟩ := of_decide_eq_true hfacts
    obtain ⟨worker, hbind, hstreaming⟩ := Option.map_eq_some_iff.mp hphase
    obtain ⟨k', hstep, hworker⟩ := Option.bind_eq_some_iff.mp hbind
    obtain ⟨worker', hworker', hends⟩ := (halong.last hh).loopHead 1 k' howed hstep
    cases hworker.symm.trans hworker'
    rw [hstreaming] at hends
    rcases hends with hend | hend <;> cases hend

end DbClinic.Server
