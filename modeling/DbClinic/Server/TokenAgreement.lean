import DbClinic.Server.SessionKeys

/-!
The cancel token of a session: the one in the shared map, which `cancel_turn`
cancels, against the one that the runtime tests and its proxy executor awaits.
Both are the token of the build until a turn is started; starting it replaces
the shared token only.
-/

namespace DbClinic.Server

open DbClinic.Runtime Persistence Transition Function

/-- The shared token of a live session is the token of its runtime and of its
executor. -/
def TokenAgree (k : Kernel) : Prop :=
  ∀ sid handle, k.sessions sid = some handle →
    ∃ state entry, k.shared sid = some state ∧ k.entries handle.entry = some entry ∧
      state.cancelToken = entry.runtime.cancelToken ∧
      state.cancelToken = entry.runtime.executor.cancelToken

/-- A call of `cancel_turn` that returns `true` while the session's proxy waits
makes the cancel branch of the wait ready. -/
def CancelWakes (k : Kernel) : Prop :=
  ∀ c call k', k.cancels c = some call → k.cancelToken c = some k' →
    ∀ handle w worker proxy entry, k.sessions call.sessionId = some handle →
      k.workers w = some worker → worker.entry = handle.entry →
      worker.phase = .proxyWait proxy → k.entries handle.entry = some entry →
      k'.tokens entry.runtime.executor.cancelToken = true

/-- No turn is started on a live session, and a resume that builds a session
finds its id in the file. -/
def TokenStepOk (k : Kernel) : Action → Prop
  | .runTurnStreaming sid _ _ => k.sessions sid = none
  | a => ResumeIdOk k a

/-- The invariant while no turn was started: every token is the one its session
was built with. -/
structure TokenInv (k : Kernel) : Prop where
  maps : MapsInv k
  token : ∀ sid handle state, k.sessions sid = some handle → k.shared sid = some state →
    state.cancelToken = handle.entry
  idle : ∀ w, k.workers w = none

variable {k k' : Kernel} {a : Action}

theorem TokenInv.agree (h : TokenInv k) : TokenAgree k := by
  intro sid handle hhandle
  obtain ⟨state, hstate, -⟩ := h.maps.linked sid handle hhandle
  obtain ⟨⟨entry, hentry⟩, -⟩ := h.maps.wired.handle sid handle hhandle
  have hbuilt := (h.maps.wired.entry _ entry hentry).2
  have htoken := h.token sid handle state hhandle hstate
  refine ⟨state, entry, hstate, hentry, ?_, ?_⟩
  · exact htoken.trans hbuilt.runtimeToken.symm
  · exact htoken.trans hbuilt.executorToken.symm

theorem TokenInv.wakes (h : TokenInv k) : CancelWakes k := by
  intro c call k' _ _ handle w worker proxy entry _ hworker
  rw [h.idle w] at hworker
  cases hworker

theorem TokenInv.quiet (h : TokenInv k) (hq : Quiet k k') : TokenInv k' := by
  refine ⟨h.maps.quiet hq, ?_, fun w => ?_⟩
  · rw [hq.sessions, hq.shared]
    exact h.token
  · rcases hworker : k'.workers w with - | worker'
    · rfl
    · obtain ⟨worker, hold, -⟩ := hq.workers w worker' hworker
      rw [h.idle w] at hold
      cases hold

theorem TokenInv.install (h : TokenInv k) (session : Session) (record : SessionRecord)
    (maxIterations : Option Nat) (channels msgCount : Nat) (stamps : SaveStamps) :
    TokenInv (k.install session.sessionId session record maxIterations channels msgCount
      stamps) := by
  refine ⟨h.maps.install .., fun sid handle state hhandle hstate => ?_, h.idle⟩
  change Function.update k.sessions session.sessionId (some ⟨k.next, _, _, _, _⟩) sid = _
    at hhandle
  change Function.update k.shared session.sessionId (some ⟨k.next, k.next, k.next⟩) sid = _
    at hstate
  rcases eq_or_ne sid session.sessionId with rfl | hne
  · rw [update_self] at hhandle hstate
    cases hhandle
    cases hstate
    rfl
  · rw [update_of_ne hne] at hhandle hstate
    exact h.token sid handle state hhandle hstate

theorem TokenInv.withDisk (h : TokenInv k) (disk : SessionTree) :
    TokenInv { k with disk } :=
  ⟨h.maps.withDisk disk, h.token, h.idle⟩

theorem TokenInv.step (h : TokenInv k) (hstep : k.step a = some k') (hok : TokenStepOk k a) :
    TokenInv k' := by
  cases a using Action.byKind with
  | create req stamps =>
    cases hstep
    exact (h.withDisk _).install ..
  | resume req stamps =>
    cases hstep
    unfold Kernel.resume
    split
    · exact h
    · rename_i hnone
      have hid := (resumedSession_id_iff k.disk req stamps).mpr (hok hnone)
      dsimp only
      rw [← hid]
      exact (h.withDisk _).install ..
  | runTurnStreaming sid text ctx =>
    have hnone : k.sessions sid = none := hok
    have hsame : k.runTurnStreaming sid text ctx = k := by
      unfold Kernel.runTurnStreaming
      rw [hnone]
    cases hstep
    rw [hsame]
    exact h
  | remove sid =>
    cases hstep
    refine ⟨h.maps.remove sid, fun sid' handle state hhandle hstate => ?_, h.idle⟩
    change Function.update k.sessions sid none sid' = _ at hhandle
    change Function.update k.shared sid none sid' = _ at hstate
    rcases eq_or_ne sid' sid with rfl | hne
    · rw [update_self] at hhandle
      cases hhandle
    · rw [update_of_ne hne] at hhandle hstate
      exact h.token sid' handle state hhandle hstate
  | restart =>
    have hmaps := h.maps.step hstep trivial
    cases hstep
    exact ⟨hmaps, by simp [Kernel.restart, Kernel.start], fun _ => rfl⟩
  | turn w act => exact h.quiet (Kernel.turn_quiet hstep)
  | aside a haside => exact h.quiet (Kernel.step_aside hstep haside).quiet

theorem TokenInv.started_disagree (h : TokenInv k) {sid : String} {handle : SessionHandle}
    (hhandle : k.sessions sid = some handle) (text : String) (ctx : Option String) :
    ¬ TokenAgree (k.runTurnStreaming sid text ctx) := by
  obtain ⟨old, hold, -⟩ := h.maps.linked sid handle hhandle
  obtain ⟨⟨entry, hentry⟩, -⟩ := h.maps.wired.handle sid handle hhandle
  obtain ⟨hlt, hbuilt⟩ := h.maps.wired.entry _ entry hentry
  intro hagree
  unfold Kernel.runTurnStreaming at hagree
  rw [hhandle] at hagree
  obtain ⟨state, entry', hstate, hentry', htoken, -⟩ :=
    hagree sid { handle with cancelToken := k.next } (update_self ..)
  have hnew : state.cancelToken = k.next := by
    change Function.update k.shared sid _ sid = some state at hstate
    rw [update_self, hold] at hstate
    cases hstate
    rfl
  have hsame : entry' = entry := by
    change k.entries handle.entry = some entry' at hentry'
    rw [hentry] at hentry'
    cases hentry'
    rfl
  have hruntime : entry.runtime.cancelToken = handle.entry := hbuilt.runtimeToken
  rw [hnew, hsame, hruntime] at htoken
  omega

theorem TokenInv.bad_step (h : TokenInv k) (hstep : k.step a = some k') (hbad : ¬ TokenStepOk k a) :
    ¬ TokenAgree k' := by
  cases a with
  | runTurnStreaming sid text ctx =>
    cases hstep
    obtain ⟨handle, hhandle⟩ := Option.ne_none_iff_exists'.mp hbad
    exact h.started_disagree hhandle text ctx
  | resume req stamps =>
    obtain ⟨sid, hlive, hnone⟩ := h.maps.bad_resume hstep hbad
    obtain ⟨handle, hhandle⟩ := Option.isSome_iff_exists.mp hlive
    intro hagree
    obtain ⟨state, -, hstate, -⟩ := hagree sid handle hhandle
    rw [hnone] at hstate
    cases hstate
  | _ => exact absurd trivial hbad

/-- Along every run from the start, the tokens agree and a returned cancel wakes
the waiting proxy exactly as long as no turn is started and every resume that
builds a session finds its id in the file. -/
theorem tokens_agree_along_iff (disk : SessionTree) (backend : SessionBackend)
    (acts : List Action) :
    Along Kernel.step (fun k => TokenAgree k ∧ CancelWakes k) (.start disk backend) acts ↔
      Meets Kernel.step TokenStepOk (.start disk backend) acts := by
  apply along_iff_meets (I := TokenInv)
  · exact fun k h => ⟨h.agree, h.wakes⟩
  · exact fun k a k' h hstep hok => h.step hstep hok
  · exact fun k a k' h hstep hbad hagree => h.bad_step hstep hbad hagree.1
  · exact ⟨mapsInv_start disk backend, by simp [Kernel.start], fun _ => rfl⟩

/-- The schedule of a first turn that runs into a proxy call, and of a cancel
that is about to return while the call waits for the operator. -/
def waitingTurn : List Action :=
  let stamps : PushStamps := ⟨11, ⟨12, ⟨13, 3⟩, 14⟩⟩
  [.create ⟨"mock", none, 0, none, none⟩ ⟨1, ⟨2, 0⟩, 3, ⟨4, ⟨5, 1⟩, 6⟩, ⟨7, ⟨8, 2⟩, 9⟩⟩,
    .runTurnStreaming "session-2-0" "why is it slow?" none,
    .turn 1 .acquire, .turn 1 (.enter (.ok ()) stamps), .turn 1 .check,
    .turn 1 (.stream (.ok [.toolUse "t" "bash" "", .messageStop]) stamps),
    .turn 1 (.gate (.allow "") stamps), .turn 1 .proxyCheck, .turn 1 .register,
    .turn 1 .dispatch, .cancelCall "session-2-0", .cancelStore 3]

/-- A cancel returns `true`, and the wait it was meant for is not woken. -/
theorem cancel_leaves_proxy_waiting :
    ¬ ∀ disk backend acts,
      Along Kernel.step (fun k => TokenAgree k ∧ CancelWakes k) (.start disk backend) acts := by
  intro hlaw
  have hrun : (run Kernel.step (.start .empty (.memory .new)) waitingTurn).any (fun k =>
      k.cancels 3 = some ⟨"session-2-0", 0, 1, .stored⟩ ∧
      k.sessions "session-2-0" = some ⟨0, 1, 0, 1, 0⟩ ∧
      (k.workers 1).map Worker.entry = some 0 ∧
      (k.workers 1).map Worker.phase = some (.proxyWait
        ⟨⟨1, ⟨"t", "bash", ""⟩, []⟩, "inst-session-2-0-1", 2⟩) ∧
      (k.entries 0).map (fun e => e.runtime.executor.cancelToken) = some 0 ∧
      k.tokens 0 = false) = true := by
    decide +kernel
  obtain ⟨k, hk, hfacts⟩ := (Option.any_eq_true _ _).mp hrun
  obtain ⟨hcancel, hsession, hentryOf, hphase, htoken, hfalse⟩ := of_decide_eq_true hfacts
  obtain ⟨worker, hworker, hentry⟩ := Option.map_eq_some_iff.mp hentryOf
  obtain ⟨entry, hentry', hexecutor⟩ := Option.map_eq_some_iff.mp htoken
  rw [hworker, Option.map_some, Option.some.injEq] at hphase
  have hreturn : k.cancelToken 3 = some { k with
      tokens := Function.update k.tokens 1 true
      cancels := Function.update k.cancels 3 (some ⟨"session-2-0", 0, 1, .returned⟩) } := by
    unfold Kernel.cancelToken
    rw [hcancel]
  have hwakes := ((hlaw .empty (.memory .new) waitingTurn).last hk).2
  have hready := hwakes 3 _ _ hcancel hreturn _ 1 worker _ entry hsession hworker hentry hphase
    hentry'
  change Function.update k.tokens 1 true entry.runtime.executor.cancelToken = true at hready
  rw [hexecutor, update_of_ne (by decide), hfalse] at hready
  cases hready

end DbClinic.Server
