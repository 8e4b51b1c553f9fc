import Mathlib.Tactic
import DbClinic.Mcp.Lifecycle

/-!
Runs of the lifecycle validator. Only the last result decides whether a server
may become ready again, so a recoverable failure lifts an earlier one that was
not, and a server that never started becomes ready through a failure.
-/

namespace DbClinic.Mcp

open McpLifecycleState List

/-- The phase has begun at some point of the run. -/
def Succeeded (state : McpLifecycleState) (phase : McpLifecyclePhase) : Prop :=
  ∃ duration, .success phase duration ∈ state.phaseResults

/-- A result after which a server is not to be used again. -/
def McpPhaseResult.Seals : McpPhaseResult → Prop
  | success phase _ => phase = .shutdown ∨ phase = .cleanup
  | failure _ error => error.recoverable = false
  | timeout _ _ error => error.recoverable = false

/-- A failure was recorded that is not recoverable, or the server was shut down. -/
def Sealed (state : McpLifecycleState) : Prop := ∃ result ∈ state.phaseResults, result.Seals

def Started (state : McpLifecycleState) : Prop :=
  Succeeded state .initializeHandshake ∧ Succeeded state .toolDiscovery

section Calls

variable {calls : List LifecycleCall} {call : LifecycleCall}

variable {phase : McpLifecyclePhase}

variable {state : McpLifecycleState}

theorem allows_runPhase (now elapsed : Nat) (hallows : state.Allows phase) :
    (state.call (.runPhase phase now elapsed)).1 = .success phase elapsed ∧
      (state.call (.runPhase phase now elapsed)).2.currentPhase = some phase := by
  cases call_effect state (.runPhase phase now elapsed) with
  | began phase' now' elapsed' hcall _ hres hcur _ =>
    cases hcall
    exact ⟨hres, hcur⟩
  | failed error hrefused _ _ _ _ => exact absurd hallows (hrefused phase now elapsed rfl)

theorem allows_of_success {duration : Nat} (h : (state.call call).1 = .success phase duration) :
    (∃ now, call = .runPhase phase now duration) ∧ state.Allows phase := by
  cases call_effect state call with
  | began phase' now elapsed hcall hallows hres _ _ =>
    rw [h] at hres
    cases hres
    exact ⟨⟨now, hcall⟩, hallows⟩
  | failed error _ herror _ _ _ =>
    rw [h] at herror
    cases herror

theorem results_snoc (calls : List LifecycleCall) (call : LifecycleCall) :
    (afterCalls (calls ++ [call])).phaseResults =
      (afterCalls calls).phaseResults ++ [((afterCalls calls).call call).1] := by
  rw [afterCalls_snoc]
  cases call_effect (afterCalls calls) call with
  | began phase now elapsed _ _ hres _ hresults => rw [hresults, hres]
  | failed error _ _ _ _ hresults => exact hresults

theorem canResume_snoc (calls : List LifecycleCall) (call : LifecycleCall) :
    (afterCalls (calls ++ [call])).canResumeAfterError = call.recoverable := by
  unfold canResumeAfterError
  rw [results_snoc, getLast?_concat]
  cases call_effect (afterCalls calls) call with
  | began phase now elapsed hcall _ hres _ _ =>
    rw [hres, hcall]
    rfl
  | failed error _ herror hrecov _ _ =>
    cases hres : ((afterCalls calls).call call).1 with
    | success phase duration =>
      rw [hres] at herror
      cases herror
    | failure phase error' =>
      rw [hres] at herror
      cases herror
      exact hrecov
    | timeout phase waited error' =>
      rw [hres] at herror
      cases herror
      exact hrecov

theorem resume_after_recoverable (h : (afterCalls calls).canResumeAfterError = true) :
    ∃ before failure, calls = before ++ [failure] ∧ failure.recoverable = true := by
  induction calls using List.reverseRecOn with
  | nil => cases h
  | append_singleton before failure _ =>
    rw [canResume_snoc] at h
    exact ⟨before, failure, rfl, h⟩

theorem current_of_recoverable (calls : List LifecycleCall) (h : call.recoverable = true) :
    (afterCalls (calls ++ [call])).currentPhase = some .errorSurfacing := by
  rw [afterCalls_snoc]
  cases call_effect (afterCalls calls) call with
  | began phase now elapsed hcall _ _ _ _ =>
    rw [hcall] at h
    cases h
  | failed error _ _ _ hcur _ => exact hcur

/-- A recoverable failure may always be followed by `Ready`. -/
theorem allows_ready (calls : List LifecycleCall) (h : call.recoverable = true) :
    (afterCalls (calls ++ [call])).Allows .ready := by
  unfold Allows
  rw [current_of_recoverable calls h]
  refine ⟨rfl, fun _ _ => ?_⟩
  rw [canResume_snoc]
  exact h

theorem succeeded_snoc (h : Succeeded (afterCalls calls) phase) :
    Succeeded (afterCalls (calls ++ [call])) phase := by
  obtain ⟨duration, hmem⟩ := h
  refine ⟨duration, ?_⟩
  rw [results_snoc]
  exact mem_append_left _ hmem

theorem started_snoc (h : Started (afterCalls calls)) : Started (afterCalls (calls ++ [call])) :=
  ⟨succeeded_snoc h.1, succeeded_snoc h.2⟩

theorem succeeded_of_snoc (h : Succeeded (afterCalls (calls ++ [call])) phase) :
    Succeeded (afterCalls calls) phase ∨
      ∃ duration, ((afterCalls calls).call call).1 = .success phase duration := by
  obtain ⟨duration, hmem⟩ := h
  rw [results_snoc] at hmem
  rcases mem_append.mp hmem with hmem | hmem
  · exact Or.inl ⟨duration, hmem⟩
  · exact Or.inr ⟨duration, (mem_singleton.mp hmem).symm⟩

theorem sealed_of_snoc (h : Sealed (afterCalls (calls ++ [call]))) :
    Sealed (afterCalls calls) ∨ ((afterCalls calls).call call).1.Seals := by
  obtain ⟨result, hmem, hseals⟩ := h
  rw [results_snoc] at hmem
  rcases mem_append.mp hmem with hmem | hmem
  · exact Or.inl ⟨result, hmem, hseals⟩
  · rw [mem_singleton.mp hmem] at hseals
    exact Or.inr hseals

theorem sealed_snoc (h : Sealed (afterCalls calls)) : Sealed (afterCalls (calls ++ [call])) := by
  obtain ⟨result, hmem, hseals⟩ := h
  refine ⟨result, ?_, hseals⟩
  rw [results_snoc]
  exact mem_append_left _ hmem

theorem recoverable_seals_nothing (h : call.recoverable = true) :
    ¬ ((afterCalls calls).call call).1.Seals := by
  cases call with
  | runPhase phase now elapsed => cases h
  | recordFailure error now =>
    intro hseals
    have hfalse : error.recoverable = false := hseals
    rw [show error.recoverable = true from h] at hfalse
    cases hfalse
  | recordTimeout phase waited serverName context now =>
    intro hseals
    cases hseals

end Calls

/-- Once sealed, a run never succeeds in becoming ready or in an invocation. -/
def StaysFailed (calls : List LifecycleCall) : Prop :=
  ∀ before call rest, calls = before ++ call :: rest → Sealed (afterCalls before) →
    ∀ phase duration, phase = .ready ∨ phase = .invocation →
      ((afterCalls before).call call).1 ≠ .success phase duration

/-- No recoverable failure is recorded in a sealed run right before the server
is asked to become ready. -/
def NoRetryWhenSealed (calls : List LifecycleCall) : Prop :=
  ∀ before failure now elapsed rest,
    calls = before ++ failure :: .runPhase .ready now elapsed :: rest →
      failure.recoverable = true → ¬ Sealed (afterCalls before)

theorem not_resume_of_sealed {before : List LifecycleCall}
    (hsealed : Sealed (afterCalls before))
    (hretry : ∀ first failure, before = first ++ [failure] → failure.recoverable = true →
      ¬ Sealed (afterCalls first)) : ¬ (afterCalls before).canResumeAfterError = true := by
  intro hresume
  obtain ⟨first, failure, rfl, hrecov⟩ := resume_after_recoverable hresume
  rcases sealed_of_snoc hsealed with hfirst | hseals
  · exact hretry first failure rfl hrecov hfirst
  · exact recoverable_seals_nothing hrecov hseals

/-- The phases of a sealed server. -/
def Stopped (phase : Option McpLifecyclePhase) : Prop :=
  phase = some .errorSurfacing ∨ phase = some .shutdown ∨ phase = some .cleanup

variable {state : McpLifecycleState} {phase : McpLifecyclePhase}

theorem stopped_step (hstop : Stopped state.currentPhase) (hallows : state.Allows phase) :
    Stopped (some phase) ∨ (phase = .ready ∧ state.canResumeAfterError = true) := by
  unfold Allows at hallows
  rcases hstop with hcur | hcur | hcur <;> rw [hcur] at hallows
  · obtain ⟨hvalid, hresume⟩ := hallows
    cases phase with
    | ready => exact Or.inr ⟨rfl, hresume rfl rfl⟩
    | errorSurfacing => exact Or.inl (Or.inl rfl)
    | shutdown => exact Or.inl (Or.inr (Or.inl rfl))
    | _ => cases hvalid
  · cases phase with
    | shutdown => exact Or.inl (Or.inr (Or.inl rfl))
    | cleanup => exact Or.inl (Or.inr (Or.inr rfl))
    | _ => cases hallows.1
  · cases phase with
    | _ => cases hallows.1

variable {calls rest : List LifecycleCall}

theorem noRetry_of_append (h : NoRetryWhenSealed (calls ++ rest)) : NoRetryWhenSealed calls := by
  intro before failure now elapsed more heq hrecov
  apply h before failure now elapsed (more ++ rest) _ hrecov
  rw [heq]
  simp

theorem sealed_stopped (hretry : NoRetryWhenSealed calls) (hsealed : Sealed (afterCalls calls)) :
    Stopped (afterCalls calls).currentPhase := by
  induction calls using List.reverseRecOn with
  | nil =>
    obtain ⟨result, hmem, -⟩ := hsealed
    exact absurd hmem not_mem_nil
  | append_singleton calls call ih =>
    have hbefore := noRetry_of_append hretry
    have hsealed' := sealed_of_snoc hsealed
    rw [afterCalls_snoc]
    cases call_effect (afterCalls calls) call with
    | failed error _ _ _ hcur _ =>
      rw [hcur]
      exact Or.inl rfl
    | began phase now elapsed hcall hallows hres hcur _ =>
      rw [hcur]
      rcases hsealed' with hsealed' | hseals
      · rcases stopped_step (ih hbefore hsealed') hallows with hstop | ⟨hready, hresume⟩
        · exact hstop
        · refine absurd hresume (not_resume_of_sealed hsealed' ?_)
          intro first failure hfirst hrecov
          apply hretry first failure now elapsed [] _ hrecov
          rw [hfirst, hcall, hready]
          simp
      · rw [hres] at hseals
        rcases hseals with rfl | rfl
        · exact Or.inr (Or.inl rfl)
        · exact Or.inr (Or.inr rfl)

/-- A lifecycle that failed for good stays failed exactly in the runs without a
recoverable failure, recorded afterwards, that is followed at once by `Ready`. -/
theorem stays_failed_iff (calls : List LifecycleCall) :
    StaysFailed calls ↔ NoRetryWhenSealed calls := by
  constructor
  · intro hfailed before failure now elapsed rest heq hrecov hsealed
    obtain ⟨hsuccess, -⟩ := allows_runPhase now elapsed (allows_ready before hrecov)
    refine hfailed (before ++ [failure]) (.runPhase .ready now elapsed) rest ?_
      (sealed_snoc hsealed) .ready elapsed (Or.inl rfl) hsuccess
    rw [heq]
    simp
  · intro hretry before call rest heq hsealed phase duration hphase hsuccess
    obtain ⟨⟨now, rfl⟩, hallows⟩ := allows_of_success hsuccess
    rw [heq] at hretry
    have hstop := sealed_stopped (noRetry_of_append hretry) hsealed
    rcases stopped_step hstop hallows with hnext | ⟨rfl, hresume⟩
    · rcases hphase with rfl | rfl
      · rcases hnext with h | h | h <;> cases h
      · rcases hnext with h | h | h <;> cases h
    · refine absurd hresume (not_resume_of_sealed hsealed ?_)
      intro first failure hfirst hrecov
      apply hretry first failure now duration rest _ hrecov
      rw [hfirst]
      simp

/-- A failure that cannot be recovered from, a timeout, and the server is ready. -/
theorem timeout_lifts_failure :
    ¬ StaysFailed [.recordFailure ⟨.invocation, none, "session corrupted", .empty, false, 0⟩ 0,
      .recordTimeout .invocation 5 none .empty 1, .runPhase .ready 2 0] := by
  intro h
  refine h [_, _] _ [] rfl ?_ .ready 0 (Or.inl rfl) rfl
  exact ⟨_, mem_cons_self, rfl⟩

/-- Every invocation that succeeds comes after a handshake and a tool discovery
that succeeded. -/
def InvokedAfterStart (calls : List LifecycleCall) : Prop :=
  ∀ before call rest, calls = before ++ call :: rest →
    ∀ duration, ((afterCalls before).call call).1 = .success .invocation duration →
      Started (afterCalls before)

/-- A recoverable failure that is followed by `Ready` and an invocation is
recorded after the start of the server. -/
def NoShortcut (calls : List LifecycleCall) : Prop :=
  ∀ before failure now elapsed now' elapsed' rest,
    calls = before ++ failure :: .runPhase .ready now elapsed ::
      .runPhase .invocation now' elapsed' :: rest →
      failure.recoverable = true → Started (afterCalls before)

structure StartKnown (calls : List LifecycleCall) : Prop where
  handshake : (afterCalls calls).currentPhase = some .initializeHandshake →
    Succeeded (afterCalls calls) .initializeHandshake
  toolDiscovery : (afterCalls calls).currentPhase = some .toolDiscovery →
    Started (afterCalls calls)
  resourceDiscovery : (afterCalls calls).currentPhase = some .resourceDiscovery →
    Started (afterCalls calls)
  invocation : (afterCalls calls).currentPhase = some .invocation → Started (afterCalls calls)
  ready : (afterCalls calls).currentPhase = some .ready → Started (afterCalls calls) ∨
    ∃ before failure now elapsed, failure.recoverable = true ∧
      calls = before ++ [failure, .runPhase .ready now elapsed]

theorem noShortcut_of_append (h : NoShortcut (calls ++ rest)) :
    NoShortcut calls := by
  intro before failure now elapsed now' elapsed' more heq hrecov
  apply h before failure now elapsed now' elapsed' (more ++ rest) _ hrecov
  rw [heq]
  simp

theorem allows_source (hallows : state.Allows phase) (hphase : phase ≠ .configLoad) :
    ∃ current, state.currentPhase = some current ∧ validatePhaseTransition current phase = true ∧
      (current = .errorSurfacing → phase = .ready → state.canResumeAfterError = true) := by
  unfold Allows at hallows
  cases hcur : state.currentPhase with
  | none =>
    rw [hcur] at hallows
    exact absurd hallows hphase
  | some current =>
    rw [hcur] at hallows
    exact ⟨current, rfl, hallows.1, hallows.2⟩

theorem started_of_invocation {now elapsed : Nat} (hknown : StartKnown calls)
    (hshort : NoShortcut (calls ++ .runPhase .invocation now elapsed :: rest))
    (hallows : (afterCalls calls).Allows .invocation) : Started (afterCalls calls) := by
  obtain ⟨current, hcur, hvalid, -⟩ := allows_source hallows (by decide)
  have hready : current = .ready := by
    cases current with
    | ready => rfl
    | _ => cases hvalid
  subst hready
  rcases hknown.ready hcur with hstart | ⟨before, failure, now₁, elapsed₁, hrecov, heq⟩
  · exact hstart
  · have hbefore : Started (afterCalls before) := by
      apply hshort before failure now₁ elapsed₁ now elapsed rest _ hrecov
      rw [heq]
      simp
    rw [heq, show before ++ [failure, .runPhase .ready now₁ elapsed₁] =
      before ++ [failure] ++ [.runPhase .ready now₁ elapsed₁] by simp]
    exact started_snoc (started_snoc hbefore)

theorem startKnown (hshort : NoShortcut calls) :
    StartKnown calls := by
  induction calls using List.reverseRecOn with
  | nil => constructor <;> intro h <;> cases h
  | append_singleton calls call ih =>
    have hknown := ih (noShortcut_of_append hshort)
    cases call_effect (afterCalls calls) call with
    | failed error _ _ _ hcur _ =>
      rw [← afterCalls_snoc] at hcur
      constructor <;> intro h <;> rw [hcur] at h <;> cases h
    | began phase now elapsed hcall hallows hres hcur hresults =>
      rw [← afterCalls_snoc] at hcur hresults
      have hphase : Succeeded (afterCalls (calls ++ [call])) phase := by
        refine ⟨elapsed, ?_⟩
        rw [hresults]
        exact mem_append_right _ (mem_singleton_self _)
      constructor <;> intro h <;> rw [hcur] at h <;> cases h
      · exact hphase
      · obtain ⟨current, hsource, hvalid, -⟩ := allows_source hallows (by decide)
        cases current with
        | initializeHandshake => exact ⟨succeeded_snoc (hknown.handshake hsource), hphase⟩
        | _ => cases hvalid
      · obtain ⟨current, hsource, hvalid, -⟩ := allows_source hallows (by decide)
        cases current with
        | toolDiscovery => exact started_snoc (hknown.toolDiscovery hsource)
        | _ => cases hvalid
      · subst hcall
        exact started_snoc (started_of_invocation hknown hshort hallows)
      · obtain ⟨current, hsource, hvalid, hresume⟩ := allows_source hallows (by decide)
        cases current with
        | toolDiscovery => exact Or.inl (started_snoc (hknown.toolDiscovery hsource))
        | resourceDiscovery => exact Or.inl (started_snoc (hknown.resourceDiscovery hsource))
        | invocation => exact Or.inl (started_snoc (hknown.invocation hsource))
        | errorSurfacing =>
          obtain ⟨before, failure, rfl, hrecov⟩ :=
            resume_after_recoverable (hresume rfl rfl)
          refine Or.inr ⟨before, failure, now, elapsed, hrecov, ?_⟩
          rw [hcall]
          simp
        | _ => cases hvalid

/-- Every invocation comes after the start of the server exactly in the runs in
which no recoverable failure before the start is followed by `Ready` and an
invocation. -/
theorem invoked_after_start_iff (calls : List LifecycleCall) :
    InvokedAfterStart calls ↔ NoShortcut calls := by
  constructor
  · intro hinvoked before failure now elapsed now' elapsed' rest heq hrecov
    have hready := allows_runPhase now elapsed (allows_ready before hrecov)
    have hcur : (afterCalls (before ++ [failure] ++
        [.runPhase .ready now elapsed])).currentPhase = some .ready := by
      rw [afterCalls_snoc]
      exact hready.2
    have hallows : (afterCalls (before ++ [failure] ++
        [.runPhase .ready now elapsed])).Allows .invocation := by
      unfold Allows
      rw [hcur]
      exact ⟨rfl, fun h => by cases h⟩
    obtain ⟨hsuccess, -⟩ := allows_runPhase now' elapsed' hallows
    have hstart := hinvoked (before ++ [failure] ++ [.runPhase .ready now elapsed])
      (.runPhase .invocation now' elapsed') rest (by rw [heq]; simp) elapsed' hsuccess
    -- Neither the failure nor `Ready` is one of the two phases.
    have hback : ∀ phase, phase ≠ .ready →
        Succeeded (afterCalls (before ++ [failure] ++ [.runPhase .ready now elapsed])) phase →
          Succeeded (afterCalls before) phase := by
      intro phase hphase h
      rcases succeeded_of_snoc h with h | ⟨duration, h⟩
      · rcases succeeded_of_snoc h with h | ⟨duration, h⟩
        · exact h
        · obtain ⟨⟨now₁, rfl⟩, -⟩ := allows_of_success h
          cases hrecov
      · rw [hready.1] at h
        cases h
        exact absurd rfl hphase
    exact ⟨hback _ (by decide) hstart.1, hback _ (by decide) hstart.2⟩
  · intro hshort before call rest heq duration hsuccess
    obtain ⟨⟨now, rfl⟩, hallows⟩ := allows_of_success hsuccess
    rw [heq] at hshort
    exact started_of_invocation (startKnown (noShortcut_of_append hshort)) hshort hallows

/-- A connection that timed out becomes ready and is used. -/
theorem timeout_skips_handshake :
    ¬ InvokedAfterStart [.recordTimeout .spawnConnect 5 none .empty 0, .runPhase .ready 1 0,
      .runPhase .invocation 2 0] := by
  intro h
  obtain ⟨⟨duration, hmem⟩, -⟩ := h [_, _] _ [] rfl 0 rfl
  change _ ∈ [_, McpPhaseResult.success .ready 0] at hmem
  rcases mem_cons.mp hmem with h | hmem
  · cases h
  · cases mem_singleton.mp hmem

end DbClinic.Mcp
