import DbClinic.Lib.KeyMap

/-!
The lifecycle of an MCP server: its phases, the calls of the validator and the
results that it keeps. A call reads the clock once, and the elapsed time of a
phase is an input of it.
-/

namespace DbClinic.Mcp

inductive McpLifecyclePhase where
  | configLoad
  | serverRegistration
  | spawnConnect
  | initializeHandshake
  | toolDiscovery
  | resourceDiscovery
  | ready
  | invocation
  | errorSurfacing
  | shutdown
  | cleanup
  deriving DecidableEq

def McpLifecyclePhase.display : McpLifecyclePhase → String
  | configLoad => "config_load"
  | serverRegistration => "server_registration"
  | spawnConnect => "spawn_connect"
  | initializeHandshake => "initialize_handshake"
  | toolDiscovery => "tool_discovery"
  | resourceDiscovery => "resource_discovery"
  | ready => "ready"
  | invocation => "invocation"
  | errorSurfacing => "error_surfacing"
  | shutdown => "shutdown"
  | cleanup => "cleanup"

structure McpErrorSurface where
  phase : McpLifecyclePhase
  serverName : Option String
  message : String
  context : KeyMap String String
  recoverable : Bool
  timestamp : Nat

inductive McpPhaseResult where
  | success (phase : McpLifecyclePhase) (duration : Nat)
  | failure (phase : McpLifecyclePhase) (error : McpErrorSurface)
  | timeout (phase : McpLifecyclePhase) (waited : Nat) (error : McpErrorSurface)

def McpPhaseResult.error : McpPhaseResult → Option McpErrorSurface
  | success .. => none
  | failure _ error => some error
  | timeout _ _ error => some error

structure McpLifecycleState where
  currentPhase : Option McpLifecyclePhase
  phaseErrors : McpLifecyclePhase → List McpErrorSurface
  phaseTimestamps : McpLifecyclePhase → Option Nat
  phaseResults : List McpPhaseResult

namespace McpLifecycleState

def new : McpLifecycleState := ⟨none, fun _ => [], fun _ => none, []⟩

def recordPhase (state : McpLifecycleState) (phase : McpLifecyclePhase) (now : Nat) :
    McpLifecycleState :=
  { state with
    currentPhase := some phase
    phaseTimestamps := Function.update state.phaseTimestamps phase (some now) }

def recordError (state : McpLifecycleState) (error : McpErrorSurface) : McpLifecycleState :=
  { state with
    phaseErrors :=
      Function.update state.phaseErrors error.phase (state.phaseErrors error.phase ++ [error]) }

def recordResult (state : McpLifecycleState) (result : McpPhaseResult) : McpLifecycleState :=
  { state with phaseResults := state.phaseResults ++ [result] }

def canResumeAfterError (state : McpLifecycleState) : Bool :=
  match state.phaseResults.getLast? with
  | some (.failure _ error) => error.recoverable
  | some (.timeout _ _ error) => error.recoverable
  | _ => false

end McpLifecycleState

def validatePhaseTransition (source target : McpLifecyclePhase) : Bool :=
  match source, target with
  | .configLoad, .serverRegistration => true
  | .serverRegistration, .spawnConnect => true
  | .spawnConnect, .initializeHandshake => true
  | .initializeHandshake, .toolDiscovery => true
  | .toolDiscovery, .resourceDiscovery => true
  | .toolDiscovery, .ready => true
  | .resourceDiscovery, .ready => true
  | .ready, .invocation => true
  | .invocation, .ready => true
  | .errorSurfacing, .ready => true
  | .errorSurfacing, .shutdown => true
  | .shutdown, .cleanup => true
  | source, .shutdown => source ≠ .cleanup
  | source, .errorSurfacing => source ≠ .cleanup && source ≠ .shutdown
  | _, _ => false

namespace McpLifecycleState

def recordFailure (state : McpLifecycleState) (error : McpErrorSurface) (now : Nat) :
    McpPhaseResult × McpLifecycleState :=
  let result := .failure error.phase error
  (result, ((state.recordError error).recordPhase .errorSurfacing now).recordResult result)

def recordTimeout (state : McpLifecycleState) (phase : McpLifecyclePhase) (waited : Nat)
    (serverName : Option String) (context : KeyMap String String) (now : Nat) :
    McpPhaseResult × McpLifecycleState :=
  let error : McpErrorSurface :=
    ⟨phase, serverName, "MCP lifecycle phase " ++ phase.display ++ " timed out after " ++
      toString waited ++ " ms", context.insert "waited_ms" (toString waited), true, now⟩
  let result := .timeout phase waited error
  (result, ((state.recordError error).recordPhase .errorSurfacing now).recordResult result)

def transitionContext (source target : McpLifecyclePhase) : KeyMap String String :=
  (KeyMap.empty.insert "from" source.display).insert "to" target.display

def runPhase (state : McpLifecycleState) (phase : McpLifecyclePhase) (now elapsed : Nat) :
    McpPhaseResult × McpLifecycleState :=
  let succeed :=
    let result := McpPhaseResult.success phase elapsed
    (result, (state.recordPhase phase now).recordResult result)
  match state.currentPhase with
  | some current =>
    if current = .errorSurfacing ∧ phase = .ready ∧ state.canResumeAfterError = false then
      state.recordFailure ⟨phase, none,
        "cannot return to ready after a non-recoverable MCP lifecycle failure",
        transitionContext current phase, false, now⟩ now
    else if validatePhaseTransition current phase = false then
      state.recordFailure ⟨phase, none, "invalid MCP lifecycle transition from " ++
        current.display ++ " to " ++ phase.display, transitionContext current phase, false,
        now⟩ now
    else succeed
  | none =>
    if phase = .configLoad then succeed
    else
      state.recordFailure ⟨phase, none, "invalid initial MCP lifecycle phase " ++ phase.display,
        KeyMap.empty.insert "phase" phase.display, false, now⟩ now

end McpLifecycleState

/-- A call of the validator, at the time `now`. -/
inductive LifecycleCall where
  | runPhase (phase : McpLifecyclePhase) (now elapsed : Nat)
  | recordFailure (error : McpErrorSurface) (now : Nat)
  | recordTimeout (phase : McpLifecyclePhase) (waited : Nat) (serverName : Option String)
      (context : KeyMap String String) (now : Nat)

def McpLifecycleState.call (state : McpLifecycleState) :
    LifecycleCall → McpPhaseResult × McpLifecycleState
  | .runPhase phase now elapsed => state.runPhase phase now elapsed
  | .recordFailure error now => state.recordFailure error now
  | .recordTimeout phase waited serverName context now =>
    state.recordTimeout phase waited serverName context now

def afterCalls (calls : List LifecycleCall) : McpLifecycleState :=
  calls.foldl (fun state call => (state.call call).2) .new

theorem afterCalls_snoc (calls : List LifecycleCall) (call : LifecycleCall) :
    afterCalls (calls ++ [call]) = ((afterCalls calls).call call).2 := by
  simp [afterCalls]

def LifecycleCall.recoverable : LifecycleCall → Bool
  | runPhase .. => false
  | recordFailure error _ => error.recoverable
  | recordTimeout .. => true

namespace McpLifecycleState

def Allows (state : McpLifecycleState) (phase : McpLifecyclePhase) : Prop :=
  match state.currentPhase with
  | some current =>
    validatePhaseTransition current phase = true ∧
      (current = .errorSurfacing → phase = .ready → state.canResumeAfterError = true)
  | none => phase = .configLoad

inductive CallEffect (state : McpLifecycleState) (call : LifecycleCall) : Prop
  | began (phase : McpLifecyclePhase) (now elapsed : Nat)
      (hcall : call = .runPhase phase now elapsed) (hallows : state.Allows phase)
      (hres : (state.call call).1 = .success phase elapsed)
      (hcur : (state.call call).2.currentPhase = some phase)
      (hresults : (state.call call).2.phaseResults =
        state.phaseResults ++ [.success phase elapsed])
  | failed (error : McpErrorSurface)
      (hrefused : ∀ phase now elapsed, call = .runPhase phase now elapsed → ¬ state.Allows phase)
      (herror : (state.call call).1.error = some error)
      (hrecov : error.recoverable = call.recoverable)
      (hcur : (state.call call).2.currentPhase = some .errorSurfacing)
      (hresults : (state.call call).2.phaseResults = state.phaseResults ++ [(state.call call).1])

theorem effect_of_recordFailure {state : McpLifecycleState} {call : LifecycleCall}
    {error : McpErrorSurface} {now : Nat} (heq : state.call call = state.recordFailure error now)
    (hrecov : error.recoverable = call.recoverable)
    (hrefused : ∀ phase now elapsed, call = .runPhase phase now elapsed → ¬ state.Allows phase) :
    CallEffect state call := by
  apply CallEffect.failed error hrefused
  · rw [heq]
    rfl
  · exact hrecov
  · rw [heq]
    rfl
  · rw [heq]
    rfl

theorem effect_of_success {state : McpLifecycleState} {phase : McpLifecyclePhase}
    {now elapsed : Nat} (hallows : state.Allows phase)
    (heq : state.runPhase phase now elapsed = (.success phase elapsed,
      (state.recordPhase phase now).recordResult (.success phase elapsed))) :
    CallEffect state (.runPhase phase now elapsed) := by
  have hcall : state.call (.runPhase phase now elapsed) = _ := heq
  apply CallEffect.began phase now elapsed rfl hallows
  · rw [hcall]
  · rw [hcall]
    rfl
  · rw [hcall]
    rfl

theorem runPhase_effect (state : McpLifecycleState) (phase : McpLifecyclePhase)
    (now elapsed : Nat) : CallEffect state (.runPhase phase now elapsed) := by
  cases hcur : state.currentPhase with
  | none =>
    by_cases hphase : phase = .configLoad
    · apply effect_of_success
      · simpa only [Allows, hcur] using hphase
      · simp only [runPhase, hcur, if_pos hphase]
    · apply effect_of_recordFailure
      · simp only [McpLifecycleState.call, runPhase, hcur, if_neg hphase]
        rfl
      · rfl
      · rintro phase' now' elapsed' ⟨⟩ hallows
        simp only [Allows, hcur] at hallows
        exact hphase hallows
  | some current =>
    by_cases hresume : current = .errorSurfacing ∧ phase = .ready ∧
        state.canResumeAfterError = false
    · apply effect_of_recordFailure
      · simp only [McpLifecycleState.call, runPhase, hcur, if_pos hresume]
        rfl
      · rfl
      · rintro phase' now' elapsed' ⟨⟩ hallows
        simp only [Allows, hcur] at hallows
        have hcan := hallows.2 hresume.1 hresume.2.1
        rw [hresume.2.2] at hcan
        cases hcan
    · by_cases hvalid : validatePhaseTransition current phase = false
      · apply effect_of_recordFailure
        · simp only [McpLifecycleState.call, runPhase, hcur, if_neg hresume, if_pos hvalid]
          rfl
        · rfl
        · rintro phase' now' elapsed' ⟨⟩ hallows
          simp only [Allows, hcur] at hallows
          rw [hvalid] at hallows
          cases hallows.1
      · apply effect_of_success
        · simp only [Allows, hcur]
          refine ⟨by simpa using hvalid, fun hsource htarget => ?_⟩
          by_contra hcan
          exact hresume ⟨hsource, htarget, by simpa using hcan⟩
        · simp only [runPhase, hcur, if_neg hresume, if_neg hvalid]

theorem call_effect (state : McpLifecycleState) (call : LifecycleCall) :
    CallEffect state call := by
  cases call with
  | runPhase phase now elapsed => exact runPhase_effect state phase now elapsed
  | recordFailure error now =>
    exact .failed error (fun _ _ _ hcall => by cases hcall) rfl rfl rfl rfl
  | recordTimeout phase waited serverName context now =>
    exact .failed _ (fun _ _ _ hcall => by cases hcall) rfl rfl rfl rfl

end McpLifecycleState

end DbClinic.Mcp
