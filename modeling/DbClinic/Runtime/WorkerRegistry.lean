import DbClinic.Lib.Transition
import DbClinic.Runtime.WorkerBoot

/-!
The calls of the worker registry, and what each of them does to the log of the
worker it names. `place` says which file a worker's directory leads to; two
directories may lead to one file. A worker's id ends in the number of its
creation, so no call ever overwrites another worker.
-/

namespace DbClinic.Runtime.WorkerBoot

open Transition List

/-- `\x7b:08x\x7d`. -/
def hexText (n : Nat) : String :=
  let digits := Nat.toDigits 16 n
  String.ofList (List.replicate (8 - digits.length) '0' ++ digits)

def workerIdOf (timestamp counter : Nat) : String :=
  "worker_" ++ hexText timestamp ++ "_" ++ toString counter

structure WorkerRegistry (π : Type) where
  workers : KeyMap String Worker
  counter : Nat
  /-- The state files written so far, newest first. -/
  written : List (π × StateSnapshot)

/-- The calls that name a worker. -/
inductive WorkerOperation where
  | observe (screenText : String)
  | resolveTrust
  | sendPrompt (prompt : Option String) (taskReceipt : Option WorkerTaskReceipt)
  | restart
  | terminate
  | observeCompletion (finishReason : String) (tokensOutput : Nat)
  | observeStartupTimeout (paneCommand : String) (transportHealthy mcpHealthy : Bool)
  deriving DecidableEq

inductive WorkerCall where
  | create (cwd : String) (trustedRoots : List String) (autoRecoverPromptMisdelivery : Bool)
  | on (workerId : String) (operation : WorkerOperation)
  deriving DecidableEq

def operate (host : Host) (id : String) (operation : WorkerOperation) (c : Control) :
    Except String Control :=
  match operation with
  | .observe screenText => .ok (observe host screenText c)
  | .resolveTrust => resolveTrust host id c
  | .sendPrompt prompt receipt => sendPrompt host id prompt receipt c
  | .restart => .ok (restart host c)
  | .terminate => .ok (terminate host c)
  | .observeCompletion reason tokens => .ok (observeCompletion host reason tokens c)
  | .observeStartupTimeout pane transport mcp =>
    .ok (observeStartupTimeout host pane transport mcp c)

namespace WorkerRegistry

variable {π : Type} (place : String → π)

def new : WorkerRegistry π := ⟨KeyMap.empty, 0, []⟩

def blankWorker (host : Host) (counter : Nat) (cwd : String) (trustedRoots : List String)
    (autoRecoverPromptMisdelivery : Bool) : Worker where
  workerId := workerIdOf (host.clock 0) counter
  cwd := cwd
  status := .spawning
  trustAutoResolve := trustedRoots.any fun root => pathMatchesAllowlist host.canonicalize cwd root
  trustGateCleared := false
  autoRecoverPromptMisdelivery := autoRecoverPromptMisdelivery
  promptDeliveryAttempts := 0
  promptInFlight := false
  promptSentAt := none
  lastPrompt := none
  expectedReceipt := none
  replayPrompt := none
  lastError := none
  createdAt := host.clock 0
  updatedAt := host.clock 0
  events := []

/-- Put a worker into the map and its state files on the disk. -/
def store (r : WorkerRegistry π) (id : String) (c : Control) : WorkerRegistry π :=
  { r with
    workers := r.workers.insert id c.worker
    written := (c.written.map fun snapshot => (place c.worker.cwd, snapshot)) ++ r.written }

def createdWorker (host : Host) (counter : Nat) (cwd : String) (trustedRoots : List String)
    (autoRecoverPromptMisdelivery : Bool) : Control :=
  pushEvent host 1
    ⟨blankWorker host counter cwd trustedRoots autoRecoverPromptMisdelivery, []⟩ .spawning
    .spawning (some "worker created") none

def create (host : Host) (r : WorkerRegistry π) (cwd : String) (trustedRoots : List String)
    (autoRecoverPromptMisdelivery : Bool) : WorkerRegistry π × Worker :=
  let counter := r.counter + 1
  let c := createdWorker host counter cwd trustedRoots autoRecoverPromptMisdelivery
  (({ r with counter }).store place c.worker.workerId c, c.worker)

def call (host : Host) (r : WorkerRegistry π) :
    WorkerCall → WorkerRegistry π × Except String Worker
  | .create cwd roots autoRecover =>
    ((r.create place host cwd roots autoRecover).1,
      .ok (r.create place host cwd roots autoRecover).2)
  | .on id operation =>
    match r.workers.get id with
    | none => (r, .error ("worker not found: " ++ id))
    | some worker =>
      match operate host id operation ⟨worker, []⟩ with
      | .error e => (r, .error e)
      | .ok c => (r.store place id c, .ok c.worker)

/-- A call in a run, with what it reads from outside. -/
def step (r : WorkerRegistry π) (a : Host × WorkerCall) : Option (WorkerRegistry π) :=
  some (r.call place a.1 a.2).1

end WorkerRegistry

section Push

variable (host : Host) (reading : Nat) (c : Control) (kind : WorkerEventKind)
  (status : WorkerStatus) (detail : Option String) (payload : Option WorkerEventPayload)

@[simp] theorem pushEvent_workerId :
    (pushEvent host reading c kind status detail payload).worker.workerId = c.worker.workerId := rfl

@[simp] theorem pushEvent_cwd :
    (pushEvent host reading c kind status detail payload).worker.cwd = c.worker.cwd := rfl

@[simp] theorem pushEvent_status :
    (pushEvent host reading c kind status detail payload).worker.status = status := rfl

@[simp] theorem pushEvent_promptInFlight :
    (pushEvent host reading c kind status detail payload).worker.promptInFlight =
      c.worker.promptInFlight := rfl

end Push

structure StateSnapshot.Shows (snapshot : StateSnapshot) (worker : Worker) : Prop where
  workerId : snapshot.workerId = worker.workerId
  status : snapshot.status = worker.status
  isReady : snapshot.isReady = decide (worker.status = .readyForPrompt)
  trustGateCleared : snapshot.trustGateCleared = worker.trustGateCleared
  promptInFlight : snapshot.promptInFlight = worker.promptInFlight

def Numbered (worker : Worker) : Prop :=
  worker.events.map WorkerEvent.seq = List.range' 1 worker.events.length

def StatusLogged (worker : Worker) : Prop :=
  ∃ event, worker.events.getLast? = some event ∧ event.status = worker.status

/-- The last event and the newest snapshot say what the worker is. -/
structure Fresh (c : Control) : Prop where
  status : StatusLogged c.worker
  shown : ∃ snapshot, c.written.head? = some snapshot ∧ snapshot.Shows c.worker

variable {c c' d : Control} {host : Host} {id : String} {status : WorkerStatus}

theorem pushEvent_fresh {reading : Nat} {kind : WorkerEventKind} {detail : Option String}
    {payload : Option WorkerEventPayload} :
    Fresh (pushEvent host reading c kind status detail payload) :=
  ⟨⟨_, getLast?_concat, rfl⟩, ⟨_, rfl, rfl, rfl, rfl, rfl, rfl⟩⟩

/-- The worker of `c'` is the one of `c` later on: its identity is the same,
its log goes on, and what was written is about it. -/
structure Evolves (c c' : Control) : Prop where
  workerId : c'.worker.workerId = c.worker.workerId
  cwd : c'.worker.cwd = c.worker.cwd
  numbered : Numbered c.worker → Numbered c'.worker
  written : ∀ snapshot ∈ c'.written,
    snapshot ∈ c.written ∨ snapshot.workerId = c.worker.workerId

theorem Evolves.refl (c : Control) : Evolves c c :=
  ⟨rfl, rfl, id, fun _ h => .inl h⟩

theorem Evolves.trans {e : Control} (h : Evolves c d) (h' : Evolves d e) : Evolves c e where
  workerId := h'.workerId.trans h.workerId
  cwd := h'.cwd.trans h.cwd
  numbered hn := h'.numbered (h.numbered hn)
  written snapshot hmem := by
    rcases h'.written snapshot hmem with hold | hid
    · exact h.written snapshot hold
    · exact .inr (hid.trans h.workerId)

theorem Evolves.set {worker : Worker} (h : Evolves c d) (hid : worker.workerId = d.worker.workerId)
    (hcwd : worker.cwd = d.worker.cwd) (hevents : worker.events = d.worker.events) :
    Evolves c { d with worker } := by
  refine h.trans ⟨hid, hcwd, fun hn => ?_, fun _ hmem => .inl hmem⟩
  unfold Numbered at hn ⊢
  rw [hevents]
  exact hn

theorem Evolves.push {reading : Nat} {kind : WorkerEventKind} {detail : Option String}
    {payload : Option WorkerEventPayload} (h : Evolves c d) :
    Evolves c (pushEvent host reading d kind status detail payload) := by
  refine h.trans ⟨rfl, rfl, fun hn => ?_, fun snapshot hmem => ?_⟩
  · unfold Numbered at hn ⊢
    change (d.worker.events ++ [_]).map WorkerEvent.seq = _
    rw [map_append, hn, map_singleton]
    change _ = List.range' 1 (d.worker.events ++ [_]).length
    rw [length_append, length_singleton, range'_concat, Nat.one_mul, Nat.add_comm]
  · rcases mem_cons.mp hmem with rfl | hold
    · exact .inr rfl
    · exact .inl hold

/-- The screen clears the prompt in flight and shows nothing else to act on. -/
structure RunsSilently (host : Host) (worker : Worker) (screenText : String) : Prop where
  noToolPrompt :
    detectToolPermissionPrompt screenText.toList (toAsciiLowercase screenText.toList) = none
  pastTrustGate : worker.trustGateCleared = true ∨
    detectTrustPrompt (toAsciiLowercase screenText.toList) = false ∨
      worker.trustAutoResolve = true
  delivered : observedMisdelivery host worker screenText.toList
    (toAsciiLowercase screenText.toList) = none
  inFlight : worker.promptInFlight = true
  cue : detectRunningCue (toAsciiLowercase screenText.toList) = true
  notReady :
    detectReadyForPrompt screenText.toList (toAsciiLowercase screenText.toList) = false

theorem observedMisdelivery_pushed (host : Host) (c : Control) (screenText lowered : List Char) :
    observedMisdelivery host (autoResolveTrust host (observeTrustPrompt host c)).worker screenText
      lowered = observedMisdelivery host c.worker screenText lowered := rfl

theorem autoResolveTrust_written (host : Host) (c : Control) :
    ∀ snapshot ∈ (autoResolveTrust host (observeTrustPrompt host c)).written,
      snapshot ∈ c.written ∨ snapshot.promptInFlight = c.worker.promptInFlight := by
  intro snapshot hmem
  rcases mem_cons.mp hmem with rfl | hmem
  · exact .inr rfl
  · rcases mem_cons.mp hmem with rfl | hold
    · exact .inr rfl
    · exact .inl hold

/-- The ways through `observe`. -/
theorem observe_cases (host : Host) (screenText : String) (c : Control) {lowered : List Char}
    (hlowered : toAsciiLowercase screenText.toList = lowered) :
    (∃ prompt, detectToolPermissionPrompt screenText.toList lowered = some prompt ∧
        observe host screenText c = observeToolPermission host c prompt) ∨
      (detectToolPermissionPrompt screenText.toList lowered = none ∧
        c.worker.trustGateCleared = false ∧ detectTrustPrompt lowered = true ∧
        c.worker.trustAutoResolve = false ∧
        observe host screenText c = observeTrustPrompt host c) ∨
      (detectToolPermissionPrompt screenText.toList lowered = none ∧
        c.worker.trustGateCleared = false ∧ detectTrustPrompt lowered = true ∧
        c.worker.trustAutoResolve = true ∧
        observe host screenText c = observeDelivery host
          (autoResolveTrust host (observeTrustPrompt host c)) screenText.toList lowered) ∨
      (detectToolPermissionPrompt screenText.toList lowered = none ∧
        (c.worker.trustGateCleared = true ∨ detectTrustPrompt lowered = false) ∧
        observe host screenText c = observeDelivery host c screenText.toList lowered) := by
  have hauto : (observeTrustPrompt host c).worker.trustAutoResolve = c.worker.trustAutoResolve :=
    rfl
  unfold observe
  rw [hlowered]
  cases htool : detectToolPermissionPrompt screenText.toList lowered with
  | some prompt => exact .inl ⟨prompt, rfl, by simp [htool]⟩
  | none =>
    cases hcleared : c.worker.trustGateCleared with
    | true => simp [htool]
    | false =>
      cases htrust : detectTrustPrompt lowered with
      | false => simp [htool, htrust]
      | true =>
        cases hresolve : c.worker.trustAutoResolve with
        | true => simp [htool, htrust, hauto, hresolve]
        | false => simp [htool, htrust, hauto, hresolve]

theorem Fresh.setStatus (h : Fresh c) (hstatus : c.worker.status = status) :
    Fresh { c with worker := { c.worker with status } } := by
  subst hstatus
  exact h

theorem observeMisdelivery_fresh (host : Host) (c : Control)
    (observation : PromptDeliveryObservation) :
    Fresh (observeMisdelivery host c observation) := by
  unfold observeMisdelivery
  dsimp only
  split
  · exact pushEvent_fresh
  · exact pushEvent_fresh.setStatus rfl

theorem observeDelivery_fresh (host : Host) (c : Control) (screenText lowered : List Char)
    (hloud : observedMisdelivery host c.worker screenText lowered = none →
      c.worker.promptInFlight = true → detectRunningCue lowered = true →
        detectReadyForPrompt screenText lowered = true) :
    Fresh (observeDelivery host c screenText lowered) ∨
      observeDelivery host c screenText lowered = c := by
  unfold observeDelivery
  cases hmiss : observedMisdelivery host c.worker screenText lowered with
  | some observation => exact .inl (observeMisdelivery_fresh host c observation)
  | none =>
    dsimp only
    by_cases hcue : (detectRunningCue lowered && c.worker.promptInFlight) = true
    · obtain ⟨hcue', hflight⟩ := Bool.and_eq_true_iff.mp hcue
      have hready := hloud hmiss hflight hcue'
      left
      unfold observeRunningCue observeReady
      rw [if_pos hcue, hready]
      exact pushEvent_fresh
    · have hsame : observeRunningCue c lowered = c := by
        unfold observeRunningCue
        exact if_neg hcue
      rw [hsame]
      unfold observeReady
      split
      · exact .inl pushEvent_fresh
      · exact .inr rfl

theorem observeDelivery_silent (host : Host) (c : Control) {screenText lowered : List Char}
    (hmiss : observedMisdelivery host c.worker screenText lowered = none)
    (hflight : c.worker.promptInFlight = true) (hcue : detectRunningCue lowered = true)
    (hready : detectReadyForPrompt screenText lowered = false) :
    observeDelivery host c screenText lowered = { c with worker := { c.worker with
      promptInFlight := false, status := .running, lastError := none } } := by
  unfold observeDelivery observeReady observeRunningCue
  simp [hmiss, hflight, hcue, hready]

theorem observe_fresh (host : Host) (screenText : String) (c : Control)
    (hloud : ¬ RunsSilently host c.worker screenText) :
    Fresh (observe host screenText c) ∨ observe host screenText c = c := by
  rcases observe_cases host screenText c rfl with
    ⟨prompt, -, heq⟩ | ⟨-, -, -, -, heq⟩ | ⟨htool, -, -, hauto, heq⟩ | ⟨htool, hpast, heq⟩
  · exact .inl (heq ▸ pushEvent_fresh)
  · exact .inl (heq ▸ pushEvent_fresh)
  · left
    rw [heq]
    rcases observeDelivery_fresh host (autoResolveTrust host (observeTrustPrompt host c))
      screenText.toList (toAsciiLowercase screenText.toList) fun hmiss hflight hcue => by
        by_contra hready
        exact hloud ⟨htool, .inr (.inr hauto), hmiss, hflight, hcue, Bool.eq_false_iff.mpr hready⟩
      with hfresh | hsame
    · exact hfresh
    · rw [hsame]
      exact pushEvent_fresh
  · rw [heq]
    refine observeDelivery_fresh host c _ _ fun hmiss hflight hcue => ?_
    by_contra hready
    exact hloud ⟨htool, hpast.imp_right .inl, hmiss, hflight, hcue, Bool.eq_false_iff.mpr hready⟩

theorem observe_silent (host : Host) (screenText : String) (worker : Worker)
    (hsilent : RunsSilently host worker screenText) :
    (observe host screenText ⟨worker, []⟩).worker.promptInFlight = false ∧
      ∀ snapshot ∈ (observe host screenText ⟨worker, []⟩).written,
        snapshot.promptInFlight = true := by
  have hflight := hsilent.inFlight
  rcases observe_cases host screenText ⟨worker, []⟩ rfl with
    ⟨prompt, htool, -⟩ | ⟨-, hcleared, htrust, hauto, -⟩ | ⟨-, -, -, -, heq⟩ | ⟨-, -, heq⟩
  · rw [hsilent.noToolPrompt] at htool
    cases htool
  · rcases hsilent.pastTrustGate with h | h | h
    · rw [h] at hcleared
      cases hcleared
    · rw [h] at htrust
      cases htrust
    · rw [h] at hauto
      cases hauto
  · have hpushed := observedMisdelivery_pushed host ⟨worker, []⟩ screenText.toList
      (toAsciiLowercase screenText.toList)
    rw [heq, observeDelivery_silent host _ (hpushed.trans hsilent.delivered) hflight hsilent.cue
      hsilent.notReady]
    refine ⟨rfl, fun snapshot hmem => ?_⟩
    rcases autoResolveTrust_written host ⟨worker, []⟩ snapshot hmem with hold | heq
    · cases hold
    · exact heq.trans hflight
  · rw [heq, observeDelivery_silent host _ hsilent.delivered hflight hsilent.cue hsilent.notReady]
    exact ⟨rfl, fun snapshot hmem => absurd hmem not_mem_nil⟩

theorem observeDelivery_evolves (host : Host) (c : Control) (screenText lowered : List Char) :
    Evolves c (observeDelivery host c screenText lowered) := by
  unfold observeDelivery
  cases observedMisdelivery host c.worker screenText lowered with
  | some observation =>
    dsimp only
    unfold observeMisdelivery
    dsimp only
    split
    · exact .push (.set (.push (.set (.refl c) rfl rfl rfl)) rfl rfl rfl)
    · exact .set (.push (.set (.refl c) rfl rfl rfl)) rfl rfl rfl
  | none =>
    have hrun : Evolves c (observeRunningCue c lowered) := by
      unfold observeRunningCue
      split
      · exact .set (.refl c) rfl rfl rfl
      · exact .refl c
    dsimp only
    unfold observeReady
    split
    · exact .push (.set hrun rfl rfl rfl)
    · exact hrun

theorem observe_evolves (host : Host) (screenText : String) (c : Control) :
    Evolves c (observe host screenText c) := by
  have htrust : Evolves c (observeTrustPrompt host c) := .push (.set (.refl c) rfl rfl rfl)
  rcases observe_cases host screenText c rfl with
    ⟨prompt, -, heq⟩ | ⟨-, -, -, -, heq⟩ | ⟨-, -, -, -, heq⟩ | ⟨-, -, heq⟩
  · exact heq ▸ .push (.set (.refl c) rfl rfl rfl)
  · exact heq ▸ htrust
  · have hauto : Evolves c (autoResolveTrust host (observeTrustPrompt host c)) :=
      .push (.set htrust rfl rfl rfl)
    exact heq ▸ hauto.trans (observeDelivery_evolves ..)
  · exact heq ▸ observeDelivery_evolves ..

theorem sendPrompt_ok_iff {prompt : Option String} {receipt : Option WorkerTaskReceipt} :
    sendPrompt host id prompt receipt c = .ok c' ↔
      c.worker.status = .readyForPrompt ∧ ∃ next, nextPrompt prompt c.worker = some next ∧
        c' = pushEvent host 1 { c with worker := { c.worker with
          promptDeliveryAttempts := c.worker.promptDeliveryAttempts + 1
          promptInFlight := true
          promptSentAt := some (host.clock 0)
          lastPrompt := some next
          expectedReceipt := receipt
          replayPrompt := none
          lastError := none
          status := .running } } .running .running
          (some ("prompt dispatched to worker: " ++ promptPreview next.toList)) none := by
  unfold sendPrompt
  split
  · rename_i hstatus
    simp [hstatus]
  · rename_i hstatus
    rw [not_not] at hstatus
    cases nextPrompt prompt c.worker with
    | none => simp
    | some next => simp [hstatus, eq_comm]

theorem resolveTrust_ok_iff :
    resolveTrust host id c = .ok c' ↔
      c.worker.status = .trustRequired ∧
        c' = pushEvent host 0 { c with worker := { c.worker with
          trustGateCleared := true, lastError := none, status := .spawning } } .trustResolved
          .spawning (some "trust prompt resolved manually")
          (some (.trustPrompt c.worker.cwd (some .manualApproval))) := by
  unfold resolveTrust
  split
  · rename_i hstatus
    simp [hstatus]
  · rename_i hstatus
    rw [not_not] at hstatus
    simp [hstatus, eq_comm]

theorem observeCompletion_evolves (host : Host) (reason : String) (tokens : Nat) (c : Control) :
    Evolves c (observeCompletion host reason tokens c) := by
  unfold observeCompletion
  split
  · exact .push (.set (.refl c) rfl rfl rfl)
  · exact .push (.set (.refl c) rfl rfl rfl)

theorem observeCompletion_fresh (host : Host) (reason : String) (tokens : Nat) (c : Control) :
    Fresh (observeCompletion host reason tokens c) := by
  unfold observeCompletion
  split
  · exact pushEvent_fresh
  · exact pushEvent_fresh

theorem operate_evolves {operation : WorkerOperation} (h : operate host id operation c = .ok c') :
    Evolves c c' := by
  cases operation with
  | observe screenText =>
    cases h
    exact observe_evolves host screenText c
  | resolveTrust =>
    obtain ⟨-, rfl⟩ := resolveTrust_ok_iff.mp h
    exact .push (.set (.refl c) rfl rfl rfl)
  | sendPrompt prompt receipt =>
    obtain ⟨-, next, -, rfl⟩ := sendPrompt_ok_iff.mp h
    exact .push (.set (.refl c) rfl rfl rfl)
  | restart =>
    cases h
    exact .push (.set (.refl c) rfl rfl rfl)
  | terminate =>
    cases h
    exact .push (.set (.refl c) rfl rfl rfl)
  | observeCompletion reason tokens =>
    cases h
    exact observeCompletion_evolves host reason tokens c
  | observeStartupTimeout pane transport mcp =>
    cases h
    exact .push (.set (.refl c) rfl rfl rfl)

theorem operate_fresh {operation : WorkerOperation} (h : operate host id operation c = .ok c')
    (hloud : ∀ screenText, operation = .observe screenText →
      ¬ RunsSilently host c.worker screenText) : Fresh c' ∨ c' = c := by
  cases operation with
  | observe screenText =>
    cases h
    exact observe_fresh host screenText c (hloud screenText rfl)
  | resolveTrust =>
    obtain ⟨-, rfl⟩ := resolveTrust_ok_iff.mp h
    exact .inl pushEvent_fresh
  | sendPrompt prompt receipt =>
    obtain ⟨-, next, -, rfl⟩ := sendPrompt_ok_iff.mp h
    exact .inl pushEvent_fresh
  | restart =>
    cases h
    exact .inl pushEvent_fresh
  | terminate =>
    cases h
    exact .inl pushEvent_fresh
  | observeCompletion reason tokens =>
    cases h
    exact .inl (observeCompletion_fresh host reason tokens c)
  | observeStartupTimeout pane transport mcp =>
    cases h
    exact .inl pushEvent_fresh

end DbClinic.Runtime.WorkerBoot
