import DbClinic.Lib.KeyMap
import DbClinic.Runtime.WorkerScreen

/-!
The worker registry. An operation changes one worker in place and pushes
events; every push writes the worker's state file, and the files written are
kept as a log, newest first. What an operation reads from outside is a `Host`:
the readings of the clock and the resolution of paths. Writes of state files
succeed, and a state file holds its snapshot, not the text of it.
-/

namespace DbClinic.Runtime.WorkerBoot

inductive WorkerStatus where
  | spawning
  | trustRequired
  | toolPermissionRequired
  | readyForPrompt
  | running
  | finished
  | failed
  deriving DecidableEq

/-- The `Display` of a status. -/
def WorkerStatus.text : WorkerStatus → String
  | spawning => "spawning"
  | trustRequired => "trust_required"
  | toolPermissionRequired => "tool_permission_required"
  | readyForPrompt => "ready_for_prompt"
  | running => "running"
  | finished => "finished"
  | failed => "failed"

/-- The derived `Debug` of a status. -/
def WorkerStatus.debug : WorkerStatus → String
  | spawning => "Spawning"
  | trustRequired => "TrustRequired"
  | toolPermissionRequired => "ToolPermissionRequired"
  | readyForPrompt => "ReadyForPrompt"
  | running => "Running"
  | finished => "Finished"
  | failed => "Failed"

inductive WorkerFailureKind where
  | trustGate
  | toolPermissionGate
  | promptDelivery
  | protocol
  | provider
  | startupNoEvidence
  deriving DecidableEq

structure WorkerFailure where
  kind : WorkerFailureKind
  message : String
  createdAt : Nat
  deriving DecidableEq

inductive WorkerEventKind where
  | spawning
  | trustRequired
  | toolPermissionRequired
  | trustResolved
  | readyForPrompt
  | promptMisdelivery
  | promptReplayArmed
  | running
  | restarted
  | finished
  | failed
  | startupNoEvidence
  deriving DecidableEq

inductive WorkerTrustResolution where
  | autoAllowlisted
  | manualApproval
  deriving DecidableEq

inductive StartupFailureClassification where
  | trustRequired
  | toolPermissionRequired
  | promptMisdelivery
  | promptAcceptanceTimeout
  | transportDead
  | workerCrashed
  | unknown
  deriving DecidableEq

def StartupFailureClassification.debug : StartupFailureClassification → String
  | trustRequired => "TrustRequired"
  | toolPermissionRequired => "ToolPermissionRequired"
  | promptMisdelivery => "PromptMisdelivery"
  | promptAcceptanceTimeout => "PromptAcceptanceTimeout"
  | transportDead => "TransportDead"
  | workerCrashed => "WorkerCrashed"
  | unknown => "Unknown"

structure StartupHealthSummary where
  healthy : Bool
  summary : String
  deriving DecidableEq

def StartupHealthSummary.observed (name : String) (healthy : Bool) : StartupHealthSummary :=
  ⟨healthy, name ++ "_" ++ (if healthy then "healthy" else "unhealthy") ++ "_placeholder"⟩

structure StartupEvidenceBundle where
  lastLifecycleState : WorkerStatus
  lastLifecycleAt : Nat
  paneCommand : String
  paneObservedAt : Nat
  commandStartedAt : Nat
  promptSentAt : Option Nat
  promptAcceptanceState : Bool
  trustPromptDetected : Bool
  toolPermissionPromptDetected : Bool
  toolPermissionPromptAgeSeconds : Option Nat
  toolPermissionAllowScope : Option ToolPermissionAllowScope
  transportHealthy : Bool
  transportHealth : StartupHealthSummary
  mcpHealthy : Bool
  mcpHealth : StartupHealthSummary
  elapsedSeconds : Nat
  deriving DecidableEq

inductive WorkerEventPayload where
  | trustPrompt (cwd : String) (resolution : Option WorkerTrustResolution)
  | toolPermissionPrompt (serverName toolName : Option String) (promptAgeSeconds : Nat)
      (allowScope : ToolPermissionAllowScope) (promptPreview : String)
  | promptDelivery (promptPreview : String) (observedTarget : WorkerPromptTarget)
      (observedCwd observedPromptPreview : Option String)
      (taskReceipt : Option WorkerTaskReceipt) (recoveryArmed : Bool)
  | startupNoEvidence (evidence : StartupEvidenceBundle)
      (classification : StartupFailureClassification)
  deriving DecidableEq

structure WorkerEvent where
  seq : Nat
  kind : WorkerEventKind
  status : WorkerStatus
  detail : Option String
  payload : Option WorkerEventPayload
  timestamp : Nat
  deriving DecidableEq

structure Worker where
  workerId : String
  cwd : String
  status : WorkerStatus
  trustAutoResolve : Bool
  trustGateCleared : Bool
  autoRecoverPromptMisdelivery : Bool
  promptDeliveryAttempts : Nat
  promptInFlight : Bool
  promptSentAt : Option Nat
  lastPrompt : Option String
  expectedReceipt : Option WorkerTaskReceipt
  replayPrompt : Option String
  lastError : Option WorkerFailure
  createdAt : Nat
  updatedAt : Nat
  events : List WorkerEvent
  deriving DecidableEq

structure StateSnapshot where
  workerId : String
  status : WorkerStatus
  isReady : Bool
  trustGateCleared : Bool
  promptInFlight : Bool
  lastEvent : Option WorkerEvent
  updatedAt : Nat
  secondsSinceUpdate : Nat
  deriving DecidableEq

/-- What an operation reads from outside: its readings of the clock, by number,
and the resolution of paths. -/
structure Host where
  clock : Nat → Nat
  canonicalize : String → Option String

/-- A worker in the hands of an operation, with the snapshots the operation has
written to its state file, newest first. -/
structure Control where
  worker : Worker
  written : List StateSnapshot

def emitStateFile (now : Nat) (worker : Worker) : StateSnapshot where
  workerId := worker.workerId
  status := worker.status
  isReady := worker.status = .readyForPrompt
  trustGateCleared := worker.trustGateCleared
  promptInFlight := worker.promptInFlight
  lastEvent := worker.events.getLast?
  updatedAt := worker.updatedAt
  secondsSinceUpdate := now - worker.updatedAt

/-- `reading` numbers the first of the two clock readings of a push. -/
def pushEvent (host : Host) (reading : Nat) (c : Control) (kind : WorkerEventKind)
    (status : WorkerStatus) (detail : Option String) (payload : Option WorkerEventPayload) :
    Control :=
  let timestamp := host.clock reading
  let event : WorkerEvent := ⟨c.worker.events.length + 1, kind, status, detail, payload, timestamp⟩
  let worker :=
    { c.worker with updatedAt := timestamp, status := status, events := c.worker.events ++ [event] }
  ⟨worker, emitStateFile (host.clock (reading + 1)) worker :: c.written⟩

def promptMisdeliveryIsRelevant (worker : Worker) : Bool :=
  worker.promptInFlight && worker.lastPrompt.isSome

/-- The misdelivery `observe` sees on a screen, for a prompt in flight. -/
def observedMisdelivery (host : Host) (worker : Worker) (screenText lowered : List Char) :
    Option PromptDeliveryObservation :=
  if promptMisdeliveryIsRelevant worker then
    detectPromptMisdelivery host.canonicalize screenText lowered worker.lastPrompt worker.cwd
      worker.expectedReceipt
  else none

def misdeliveryMessage (target : WorkerPromptTarget) (cwd preview : String) : String :=
  match target with
  | .shell => "worker prompt landed in shell instead of coding agent: " ++ preview
  | .wrongTarget => "worker prompt landed in the wrong target instead of " ++ cwd ++ ": " ++ preview
  | .wrongTask =>
    "worker prompt receipt mismatched the expected task context for " ++ cwd ++ ": " ++ preview
  | .unknown => "worker prompt delivery failed before reaching coding agent: " ++ preview

/-- The branch of `observe` for a tool permission prompt. -/
def observeToolPermission (host : Host) (c : Control)
    (toolPrompt : ToolPermissionPromptObservation) : Control :=
  let worker := { c.worker with
    status := .toolPermissionRequired
    lastError := some ⟨.toolPermissionGate, toolPrompt.message, host.clock 0⟩ }
  pushEvent host 1 { c with worker } .toolPermissionRequired .toolPermissionRequired
    (some "tool permission prompt detected")
    (some (.toolPermissionPrompt toolPrompt.serverName toolPrompt.toolName 0 toolPrompt.allowScope
      toolPrompt.promptPreview))

/-- The branch of `observe` for a trust prompt, up to its automatic resolution. -/
def observeTrustPrompt (host : Host) (c : Control) : Control :=
  let worker := { c.worker with
    status := .trustRequired
    lastError := some ⟨.trustGate, "worker boot blocked on trust prompt", host.clock 0⟩ }
  pushEvent host 1 { c with worker } .trustRequired .trustRequired
    (some "trust prompt detected") (some (.trustPrompt worker.cwd none))

def autoResolveTrust (host : Host) (c : Control) : Control :=
  let worker := { c.worker with trustGateCleared := true, lastError := none, status := .spawning }
  pushEvent host 3 { c with worker } .trustResolved .spawning
    (some "allowlisted repo auto-resolved trust prompt")
    (some (.trustPrompt worker.cwd (some .autoAllowlisted)))

/-- The branch of `observe` for a prompt that was misdelivered. -/
def observeMisdelivery (host : Host) (c : Control) (observation : PromptDeliveryObservation) :
    Control :=
  let preview := promptPreview ((c.worker.lastPrompt.getD "").toList)
  let worker := { c.worker with
    lastError := some ⟨.promptDelivery,
      misdeliveryMessage observation.target c.worker.cwd preview, host.clock 5⟩
    promptInFlight := false }
  let c := pushEvent host 6 { c with worker } .promptMisdelivery .failed
    (some (promptMisdeliveryDetail observation))
    (some (.promptDelivery preview observation.target observation.observedCwd
      observation.observedPromptPreview worker.expectedReceipt false))
  if c.worker.autoRecoverPromptMisdelivery then
    let worker := { c.worker with
      replayPrompt := c.worker.lastPrompt, status := .readyForPrompt }
    pushEvent host 8 { c with worker } .promptReplayArmed .readyForPrompt
      (some "prompt replay armed after prompt misdelivery")
      (some (.promptDelivery preview observation.target observation.observedCwd
        observation.observedPromptPreview worker.expectedReceipt true))
  else { c with worker := { c.worker with status := .failed } }

def observeRunningCue (c : Control) (lowered : List Char) : Control :=
  if detectRunningCue lowered && c.worker.promptInFlight then
    { c with worker := { c.worker with
      promptInFlight := false, status := .running, lastError := none } }
  else c

def observeReady (host : Host) (c : Control) (screenText lowered : List Char) : Control :=
  if detectReadyForPrompt screenText lowered && c.worker.status != .readyForPrompt then
    let worker := { c.worker with
      status := .readyForPrompt
      promptInFlight := false
      lastError :=
        if c.worker.lastError.map WorkerFailure.kind = some .trustGate then none
        else c.worker.lastError }
    pushEvent host 5 { c with worker } .readyForPrompt .readyForPrompt
      (some "worker is ready for prompt delivery") none
  else c

/-- What `observe` does once no gate holds the worker. -/
def observeDelivery (host : Host) (c : Control) (screenText lowered : List Char) : Control :=
  match observedMisdelivery host c.worker screenText lowered with
  | some observation => observeMisdelivery host c observation
  | none => observeReady host (observeRunningCue c lowered) screenText lowered

def observe (host : Host) (screenText : String) (c : Control) : Control :=
  let lowered := toAsciiLowercase screenText.toList
  match detectToolPermissionPrompt screenText.toList lowered with
  | some toolPrompt => observeToolPermission host c toolPrompt
  | none =>
    if !c.worker.trustGateCleared && detectTrustPrompt lowered then
      let c := observeTrustPrompt host c
      if c.worker.trustAutoResolve then
        observeDelivery host (autoResolveTrust host c) screenText.toList lowered
      else c
    else observeDelivery host c screenText.toList lowered

def resolveTrust (host : Host) (workerId : String) (c : Control) : Except String Control :=
  if c.worker.status ≠ .trustRequired then
    .error ("worker " ++ workerId ++ " is not waiting on trust; current status: " ++
      c.worker.status.text)
  else
    let worker := { c.worker with trustGateCleared := true, lastError := none, status := .spawning }
    .ok (pushEvent host 0 { c with worker } .trustResolved .spawning
      (some "trust prompt resolved manually")
      (some (.trustPrompt worker.cwd (some .manualApproval))))

/-- The prompt to send: the one given, if it is not blank, or the one to replay. -/
def nextPrompt (prompt : Option String) (worker : Worker) : Option String :=
  ((prompt.bind fun text => nonEmpty (trim text.toList)).map String.ofList).or worker.replayPrompt

def sendPrompt (host : Host) (workerId : String) (prompt : Option String)
    (taskReceipt : Option WorkerTaskReceipt) (c : Control) : Except String Control :=
  if c.worker.status ≠ .readyForPrompt then
    .error ("worker " ++ workerId ++ " is not ready for prompt delivery; current status: " ++
      c.worker.status.text)
  else
    match nextPrompt prompt c.worker with
    | none => .error ("worker " ++ workerId ++ " has no prompt to send or replay")
    | some next =>
      let worker := { c.worker with
        promptDeliveryAttempts := c.worker.promptDeliveryAttempts + 1
        promptInFlight := true
        promptSentAt := some (host.clock 0)
        lastPrompt := some next
        expectedReceipt := taskReceipt
        replayPrompt := none
        lastError := none
        status := .running }
      .ok (pushEvent host 1 { c with worker } .running .running
        (some ("prompt dispatched to worker: " ++ promptPreview next.toList)) none)

def restart (host : Host) (c : Control) : Control :=
  let worker := { c.worker with
    status := .spawning
    trustGateCleared := false
    lastPrompt := none
    replayPrompt := none
    lastError := none
    promptDeliveryAttempts := 0
    promptInFlight := false
    promptSentAt := none }
  pushEvent host 0 { c with worker } .restarted .spawning (some "worker restarted") none

def terminate (host : Host) (c : Control) : Control :=
  let worker := { c.worker with status := .finished, promptInFlight := false }
  pushEvent host 0 { c with worker } .finished .finished
    (some "worker terminated by control plane") none

def isProviderFailure (finishReason : String) (tokensOutput : Nat) : Bool :=
  (finishReason = "unknown" && tokensOutput = 0) || finishReason = "error"

def observeCompletion (host : Host) (finishReason : String) (tokensOutput : Nat) (c : Control) :
    Control :=
  if isProviderFailure finishReason tokensOutput then
    let message :=
      if finishReason = "unknown" ∧ tokensOutput = 0 then
        "session completed with finish='unknown' and zero output — provider degraded or " ++
          "context exhausted"
      else "session failed with finish='" ++ finishReason ++ "' — provider error"
    let worker := { c.worker with
      lastError := some ⟨.provider, message, host.clock 0⟩
      status := .failed
      promptInFlight := false }
    pushEvent host 1 { c with worker } .failed .failed (some "provider failure classified") none
  else
    let worker := { c.worker with status := .finished, promptInFlight := false, lastError := none }
    pushEvent host 0 { c with worker } .finished .finished
      (some ("session completed: finish='" ++ finishReason ++ "', tokens=" ++
        toString tokensOutput)) none

def classifyStartupFailure (evidence : StartupEvidenceBundle) : StartupFailureClassification :=
  if !evidence.transportHealthy then .transportDead
  else if evidence.trustPromptDetected && evidence.lastLifecycleState = .trustRequired then
    .trustRequired
  else if evidence.toolPermissionPromptDetected &&
      evidence.lastLifecycleState = .toolPermissionRequired then .toolPermissionRequired
  else if evidence.promptSentAt.isSome && !evidence.promptAcceptanceState &&
      evidence.lastLifecycleState = .running then .promptAcceptanceTimeout
  else if evidence.promptSentAt.isSome && !evidence.promptAcceptanceState &&
      decide (evidence.elapsedSeconds > 30) then .promptMisdelivery
  else if !evidence.mcpHealthy && evidence.transportHealthy then .workerCrashed
  else .unknown

def startupEvidence (now : Nat) (worker : Worker) (paneCommand : String)
    (transportHealthy mcpHealthy : Bool) : StartupEvidenceBundle :=
  let latest := worker.events.reverse.find? fun event => event.kind = .toolPermissionRequired
  { lastLifecycleState := worker.status
    lastLifecycleAt := worker.updatedAt
    paneCommand := paneCommand
    paneObservedAt := now
    commandStartedAt := worker.createdAt
    promptSentAt := worker.promptSentAt
    promptAcceptanceState := worker.status = .running && !worker.promptInFlight
    trustPromptDetected := worker.events.any fun event => event.kind = .trustRequired
    toolPermissionPromptDetected :=
      worker.events.any fun event => event.kind = .toolPermissionRequired
    toolPermissionPromptAgeSeconds := latest.map fun event => now - event.timestamp
    toolPermissionAllowScope := latest.bind fun event =>
      match event.payload with
      | some (.toolPermissionPrompt _ _ _ allowScope _) => some allowScope
      | _ => none
    transportHealthy := transportHealthy
    transportHealth := StartupHealthSummary.observed "transport" transportHealthy
    mcpHealthy := mcpHealthy
    mcpHealth := StartupHealthSummary.observed "mcp" mcpHealthy
    elapsedSeconds := now - worker.createdAt }

def observeStartupTimeout (host : Host) (paneCommand : String)
    (transportHealthy mcpHealthy : Bool) (c : Control) : Control :=
  let now := host.clock 0
  let evidence := startupEvidence now c.worker paneCommand transportHealthy mcpHealthy
  let classification := classifyStartupFailure evidence
  let worker := { c.worker with
    lastError := some ⟨.startupNoEvidence,
      "worker startup stalled after " ++ toString (now - c.worker.createdAt) ++
        "s — classified as " ++ classification.debug, now⟩
    status := .failed
    promptInFlight := false }
  pushEvent host 1 { c with worker } .startupNoEvidence .failed
    (some ("startup timeout with evidence: last_state=" ++ evidence.lastLifecycleState.debug ++
      ", trust_detected=" ++ toString evidence.trustPromptDetected ++
      ", prompt_accepted=" ++ toString evidence.promptAcceptanceState))
    (some (.startupNoEvidence evidence classification))

end DbClinic.Runtime.WorkerBoot
