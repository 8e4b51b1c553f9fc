import DbClinic.Runtime.WorkerState

/-!
A finished worker. It has no prompt in flight and is sent none, but a screen
that shows a gate or a ready cue, a completion that failed and a startup
timeout each give it another status.
-/

namespace DbClinic.Runtime.WorkerBoot

open Transition

/-- What on a screen gives a finished worker another status. -/
def Disturbs (worker : Worker) (screenText : String) : Prop :=
  let lowered := toAsciiLowercase screenText.toList
  (detectToolPermissionPrompt screenText.toList lowered).isSome = true ∨
    (worker.trustGateCleared = false ∧ detectTrustPrompt lowered = true) ∨
    detectReadyForPrompt screenText.toList lowered = true

def KeepsFinished (worker : Worker) : WorkerOperation → Prop
  | .observe screenText => ¬ Disturbs worker screenText
  | .resolveTrust | .sendPrompt _ _ | .terminate => True
  | .restart => False
  | .observeCompletion reason tokens => isProviderFailure reason tokens = false
  | .observeStartupTimeout _ _ _ => False

variable {c c' : Control} {host : Host} {screenText lowered : List Char} {id : String}
variable {operation : WorkerOperation}

theorem observeReady_status (h : (observeReady host c screenText lowered).worker.status = .finished) :
    observeReady host c screenText lowered = c := by
  unfold observeReady at h ⊢
  split
  · rename_i hready
    rw [if_pos hready] at h
    cases h
  · rfl

theorem observeMisdelivery_status (host : Host) (c : Control)
    (observation : PromptDeliveryObservation) :
    (observeMisdelivery host c observation).worker.status ≠ .finished := by
  unfold observeMisdelivery
  dsimp only
  split
  · exact nofun
  · exact nofun

theorem observeDelivery_status
    (h : (observeDelivery host c screenText lowered).worker.status = .finished) :
    observeDelivery host c screenText lowered = c := by
  unfold observeDelivery at h ⊢
  cases hmiss : observedMisdelivery host c.worker screenText lowered with
  | some observation =>
    rw [hmiss] at h
    exact absurd h (observeMisdelivery_status host c observation)
  | none =>
    rw [hmiss] at h
    dsimp only at h ⊢
    have hsame := observeReady_status h
    rw [hsame] at h ⊢
    unfold observeRunningCue at h ⊢
    split
    · rename_i hcue
      rw [if_pos hcue] at h
      cases h
    · rfl

theorem observe_status {screenText : String}
    (h : (observe host screenText c).worker.status = .finished) :
    observe host screenText c = c := by
  rcases observe_cases host screenText c rfl with
    ⟨prompt, -, heq⟩ | ⟨-, -, -, -, heq⟩ | ⟨-, -, -, -, heq⟩ | ⟨-, -, heq⟩
  · rw [heq] at h
    cases h
  · rw [heq] at h
    cases h
  · rw [heq] at h
    rw [observeDelivery_status h] at h
    cases h
  · rw [heq] at h ⊢
    exact observeDelivery_status h

theorem observeDelivery_idle (host : Host) (hidle : c.worker.promptInFlight = false)
    (screenText lowered : List Char) :
    observeDelivery host c screenText lowered = observeReady host c screenText lowered := by
  have hmiss : observedMisdelivery host c.worker screenText lowered = none := by
    simp [observedMisdelivery, promptMisdeliveryIsRelevant, hidle]
  have hcue : observeRunningCue c lowered = c := by
    simp [observeRunningCue, hidle]
  unfold observeDelivery
  rw [hmiss, hcue]

theorem observe_finished_iff (host : Host) (screenText : String)
    (hdone : c.worker.status = .finished) (hidle : c.worker.promptInFlight = false) :
    (observe host screenText c).worker.status = .finished ↔ ¬ Disturbs c.worker screenText := by
  unfold Disturbs
  rcases observe_cases host screenText c rfl with
    ⟨prompt, htool, heq⟩ | ⟨-, hcleared, htrust, -, heq⟩ | ⟨-, hcleared, htrust, -, heq⟩ |
    ⟨htool, hpast, heq⟩
  · rw [heq]
    simp [htool, observeToolPermission]
  · rw [heq]
    simp [hcleared, htrust, observeTrustPrompt]
  · have hnot : (observe host screenText c).worker.status ≠ .finished := by
      intro h
      rw [heq] at h
      rw [observeDelivery_status h] at h
      cases h
    simp [hnot, hcleared, htrust]
  · rw [heq, observeDelivery_idle host hidle]
    unfold observeReady
    cases hready : detectReadyForPrompt screenText.toList (toAsciiLowercase screenText.toList) with
    | true => simp [hdone, hready]
    | false =>
      rcases hpast with hpast | hpast
      · simp [hdone, htool, hpast, hready]
      · simp [hdone, htool, hpast, hready]

theorem observeCompletion_status (host : Host) (reason : String) (tokens : Nat) (c : Control) :
    (observeCompletion host reason tokens c).worker.status =
      if isProviderFailure reason tokens then .failed else .finished := by
  unfold observeCompletion
  split
  · rfl
  · rfl

theorem operate_finished_iff (hdone : c.worker.status = .finished)
    (hidle : c.worker.promptInFlight = false) (h : operate host id operation c = .ok c') :
    c'.worker.status = .finished ↔ KeepsFinished c.worker operation := by
  cases operation with
  | observe screenText =>
    cases h
    exact observe_finished_iff host screenText hdone hidle
  | resolveTrust =>
    obtain ⟨hstatus, -⟩ := resolveTrust_ok_iff.mp h
    rw [hdone] at hstatus
    cases hstatus
  | sendPrompt prompt receipt =>
    obtain ⟨hstatus, -⟩ := sendPrompt_ok_iff.mp h
    rw [hdone] at hstatus
    cases hstatus
  | restart =>
    cases h
    exact ⟨nofun, False.elim⟩
  | terminate =>
    cases h
    exact ⟨fun _ => trivial, fun _ => rfl⟩
  | observeCompletion reason tokens =>
    cases h
    rw [observeCompletion_status]
    change _ ↔ isProviderFailure reason tokens = false
    cases isProviderFailure reason tokens with
    | true => simp
    | false => simp
  | observeStartupTimeout pane transport mcp =>
    cases h
    exact ⟨nofun, False.elim⟩

/-- An operation that ends in `finished` leaves no prompt in flight. -/
theorem operate_idle (hidle : c.worker.status = .finished → c.worker.promptInFlight = false)
    (h : operate host id operation c = .ok c') (hdone : c'.worker.status = .finished) :
    c'.worker.promptInFlight = false := by
  cases operation with
  | observe screenText =>
    cases h
    have hsame := observe_status hdone
    rw [hsame] at hdone ⊢
    exact hidle hdone
  | resolveTrust =>
    obtain ⟨-, rfl⟩ := resolveTrust_ok_iff.mp h
    cases hdone
  | sendPrompt prompt receipt =>
    obtain ⟨-, next, -, rfl⟩ := sendPrompt_ok_iff.mp h
    cases hdone
  | restart =>
    cases h
    rfl
  | terminate =>
    cases h
    rfl
  | observeCompletion reason tokens =>
    cases h
    unfold observeCompletion
    split
    · rfl
    · rfl
  | observeStartupTimeout pane transport mcp =>
    cases h
    rfl

namespace WorkerRegistry

variable {π : Type} (place : String → π) (id : String)

def Final (r : WorkerRegistry π) : Prop :=
  (∃ worker, r.workers.get id = some worker ∧ worker.status = .finished) ∧
    ∀ host prompt receipt worker,
      (r.call place host (.on id (.sendPrompt prompt receipt))).2 ≠ .ok worker

def Keeps (r : WorkerRegistry π) (a : Host × WorkerCall) : Prop :=
  a.2 ≠ .on id .restart ∧ ∀ operation worker, a.2 = .on id operation →
    r.workers.get id = some worker → KeepsFinished worker operation

def FinishedIdle (r : WorkerRegistry π) : Prop :=
  ∀ id worker, r.workers.get id = some worker → worker.status = .finished →
    worker.promptInFlight = false

structure Finished (r : WorkerRegistry π) : Prop where
  keyed : Keyed place r
  idle : FinishedIdle r
  finished : ∃ worker, r.workers.get id = some worker ∧ worker.status = .finished

theorem Finished.final {place : String → π} {r : WorkerRegistry π} (h : Finished place id r) :
    Final place id r := by
  obtain ⟨worker, hget, hstatus⟩ := h.finished
  refine ⟨⟨worker, hget, hstatus⟩, fun host prompt receipt sent hcall => ?_⟩
  have hrefused : ∃ e, operate host id (.sendPrompt prompt receipt) ⟨worker, []⟩ = .error e := by
    simp [operate, sendPrompt, hstatus]
  obtain ⟨e, hrefused⟩ := hrefused
  simp [call, hget, hrefused] at hcall

section Calls

variable {place id} {r : WorkerRegistry π} {host : Host}

theorem FinishedIdle.call (h : FinishedIdle r) (request : WorkerCall) :
    FinishedIdle (r.call place host request).1 := by
  rcases call_cases place r host request with
    ⟨cwd, roots, autoRecover, -, heq⟩ | ⟨named, operation, worker, c, -, hget, hop, heq⟩ | heq
  · rw [heq]
    intro other w hother hstatus
    change (r.workers.insert _ _).get other = _ at hother
    rw [KeyMap.get_insert] at hother
    split at hother
    · cases hother
      cases hstatus
    · exact h other w hother hstatus
  · rw [heq]
    intro other w hother hstatus
    change (r.workers.insert named c.worker).get other = _ at hother
    rw [KeyMap.get_insert] at hother
    split at hother
    · cases hother
      exact operate_idle (h named worker hget) hop hstatus
    · exact h other w hother hstatus
  · rw [heq]
    exact h

theorem Finished.call_iff (h : Finished place id r) (request : WorkerCall)
    (hrestart : request ≠ .on id .restart) :
    (∃ worker, (r.call place host request).1.workers.get id = some worker ∧
      worker.status = .finished) ↔ Keeps id r (host, request) := by
  obtain ⟨worker, hget, hstatus⟩ := h.finished
  have hsame (r' : WorkerRegistry π) (hr' : r'.workers.get id = some worker)
      (hother : ∀ operation, request ≠ .on id operation) :
      (∃ worker, r'.workers.get id = some worker ∧ worker.status = .finished) ↔
        Keeps id r (host, request) :=
    ⟨fun _ => ⟨hrestart, fun operation _ heq => absurd heq (hother operation)⟩,
      fun _ => ⟨worker, hr', hstatus⟩⟩
  cases request with
  | create cwd roots autoRecover =>
    refine hsame _ ?_ (fun operation => nofun)
    refine (r.workers.get_insert_of_ne _ ?_).trans hget
    rintro rfl
    have hfresh := h.keyed.fresh place (host.clock 0)
    change r.workers.get (workerIdOf (host.clock 0) (r.counter + 1)) = _ at hget
    rw [hfresh] at hget
    cases hget
  | on named operation =>
    rcases eq_or_ne named id with rfl | hne
    · have hkeeps : Keeps named r (host, .on named operation) ↔
          KeepsFinished worker operation := by
        constructor
        · intro hkeeps
          exact hkeeps.2 operation worker rfl hget
        · intro hkeeps
          refine ⟨hrestart, fun operation' worker' heq hget' => ?_⟩
          cases heq
          rw [hget, Option.some.injEq] at hget'
          exact hget' ▸ hkeeps
      rw [hkeeps]
      have hidle := h.idle named worker hget hstatus
      cases hop : operate host named operation ⟨worker, []⟩ with
      | error e =>
        have hcall : (r.call place host (.on named operation)).1 = r := by
          simp [call, hget, hop]
        rw [hcall]
        -- Only the two guarded operations fail, and both keep the worker.
        cases operation with
        | resolveTrust => exact ⟨fun _ => trivial, fun _ => ⟨worker, hget, hstatus⟩⟩
        | sendPrompt prompt receipt =>
          exact ⟨fun _ => trivial, fun _ => ⟨worker, hget, hstatus⟩⟩
        | observe screenText => cases hop
        | restart => cases hop
        | terminate => cases hop
        | observeCompletion reason tokens => cases hop
        | observeStartupTimeout pane transport mcp => cases hop
      | ok c =>
        have hcall : (r.call place host (.on named operation)).1.workers.get named =
            some c.worker := by
          simp [call, hget, hop, store]
        rw [← operate_finished_iff hstatus hidle hop, hcall]
        constructor
        · rintro ⟨w, hw, hdone⟩
          cases hw
          exact hdone
        · exact fun hdone => ⟨c.worker, rfl, hdone⟩
    · refine hsame _ ?_ (fun other heq => hne (by cases heq; rfl))
      rcases call_cases place r host (.on named operation) with
        ⟨_, _, _, hcreate, -⟩ | ⟨named', _, _, c, hcall, -, -, heq⟩ | heq
      · cases hcreate
      · cases hcall
        rw [heq]
        exact (r.workers.get_insert_of_ne _ hne.symm).trans hget
      · rw [heq]
        exact hget

end Calls

/-- From a state in which a worker is finished, and without a restart of it: it
stays finished and is sent no prompt in every state reached, exactly when no
screen shows a gate or a ready cue, no failed completion and no startup timeout
is reported for it. -/
theorem finished_final_iff (before later : List (Host × WorkerCall)) (r : WorkerRegistry π)
    (hrun : run (step place) new before = some r)
    (hdone : ∃ worker, r.workers.get id = some worker ∧ worker.status = .finished)
    (hrestart : ∀ a ∈ later, a.2 ≠ .on id .restart) :
    Along (step place) (Final place id) r later ↔ Meets (step place) (Keeps id) r later := by
  have hnew : Keyed place new ∧ FinishedIdle (new : WorkerRegistry π) := by
    refine ⟨keyed_new place, fun id worker hget => ?_⟩
    rw [get_new] at hget
    cases hget
  have hall : Meets (step place) (fun _ _ => True) new before :=
    Meets.of_forall (fun _ _ => trivial) _ _
  have hbefore : Along (step place) (fun r => Keyed place r ∧ FinishedIdle r) new before := by
    refine hall.along (fun s a t h hstep _ => ?_) hnew
    cases hstep
    exact ⟨h.1.call place a.2, h.2.call a.2⟩
  obtain ⟨hkeyed, hidle⟩ := hbefore.last hrun
  have hdomain : Meets (step place) (fun _ a => a.2 ≠ .on id .restart) r later :=
    Meets.of_mem r hrestart
  have hgood : ∀ s a t, Finished place id s → step place s a = some t → Keeps id s a →
      Finished place id t := by
    intro s a t h hstep hkeeps
    cases hstep
    exact ⟨h.keyed.call place a.2, h.idle.call a.2, (h.call_iff a.2 hkeeps.1).mpr hkeeps⟩
  have hbad : ∀ s a t, Finished place id s → step place s a = some t →
      a.2 ≠ .on id .restart → ¬ Keeps id s a → ¬ Final place id t := by
    intro s a t h hstep hin hnot hafter
    cases hstep
    exact hnot ((h.call_iff a.2 hin).mp hafter.1)
  rw [meets_iff_along_and_meets (fun s h => h.final) hgood (fun s a h => h.1) hbad
    ⟨hkeyed, hidle, hdone⟩ later]
  exact (and_iff_left hdomain).symm

def terminatedRun : List (Host × WorkerCall) :=
  [(stillHost, .create "/w" [] false), (stillHost, .on "worker_00000000_1" .terminate)]

/-- The worker of `terminatedRun` shows some text. -/
def showing (screenText : String) : List (Host × WorkerCall) :=
  [(stillHost, .on "worker_00000000_1" (.observe screenText))]

theorem terminatedRun_finished :
    ∃ r, run (step fun path => path) (new : WorkerRegistry String) terminatedRun = some r ∧
      ∃ worker, r.workers.get "worker_00000000_1" = some worker ∧ worker.status = .finished := by
  have hcheck : (run (step fun path => path) (new : WorkerRegistry String) terminatedRun).any
      (fun r => (r.workers.get "worker_00000000_1").any fun worker =>
        decide (worker.status = .finished)) = true := by
    decide +kernel
  obtain ⟨r, hrun, hr⟩ := (Option.any_eq_true _ _).mp hcheck
  obtain ⟨worker, hget, hstatus⟩ := (Option.any_eq_true _ _).mp hr
  exact ⟨r, hrun, worker, hget, of_decide_eq_true hstatus⟩

theorem finished_final_iff_working :
    ∃ r, run (step fun path => path) (new : WorkerRegistry String) terminatedRun = some r ∧
      (Along (step fun path => path) (Final (fun path => path) "worker_00000000_1") r
          (showing "working") ↔
        Meets (step fun path => path) (Keeps "worker_00000000_1") r (showing "working")) := by
  obtain ⟨r, hrun, hdone⟩ := terminatedRun_finished
  refine ⟨r, hrun, finished_final_iff _ _ terminatedRun (showing "working") r hrun hdone ?_⟩
  intro a ha
  rw [List.mem_singleton.mp ha]
  exact nofun

/-- A terminated worker whose screen shows a ready cue is sent a prompt. -/
theorem terminated_worker_sent_prompt :
    ∃ r, run (step fun path => path) (new : WorkerRegistry String) terminatedRun = some r ∧
      (∃ worker, r.workers.get "worker_00000000_1" = some worker ∧ worker.status = .finished) ∧
      ¬ Along (step fun path => path) (Final (fun path => path) "worker_00000000_1") r
        (showing "ready for input") := by
  obtain ⟨r, hrun, hdone⟩ := terminatedRun_finished
  refine ⟨r, hrun, hdone, fun halong => ?_⟩
  have hcheck : (run (step fun path => path) (new : WorkerRegistry String)
      (terminatedRun ++ showing "ready for input")).any (fun r =>
        (r.call (fun path => path) stillHost
          (.on "worker_00000000_1" (.sendPrompt (some "go") none))).2.isOk) = true := by
    decide +kernel
  obtain ⟨r', hrun', hsent⟩ := (Option.any_eq_true _ _).mp hcheck
  rw [run_append, hrun, Option.bind_some] at hrun'
  obtain ⟨-, hrefused⟩ := halong.last hrun'
  cases hres : (r'.call (fun path => path) stillHost
      (.on "worker_00000000_1" (.sendPrompt (some "go") none))).2 with
  | ok worker => exact hrefused stillHost (some "go") none worker hres
  | error e =>
    rw [hres] at hsent
    cases hsent

end WorkerRegistry

end DbClinic.Runtime.WorkerBoot
