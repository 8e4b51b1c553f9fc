import Mathlib.Data.List.Basic

/-!
Lane events: their data, their constructors and their fingerprints. `D` is the type of
JSON values; events compare them and hash them. The JSON text of a payload and its digest
are one parameter.
-/

namespace DbClinic.Runtime.Lane

inductive LaneEventName where
  | started
  | ready
  | promptMisdelivery
  | blocked
  | red
  | green
  | commitCreated
  | prOpened
  | mergeReady
  | finished
  | failed
  | reconciled
  | merged
  | superseded
  | closed
  | branchStaleAgainstMain
  | branchWorkspaceMismatch
  | shipPrepared
  | shipCommitsSelected
  | shipMerged
  | shipPushedMain
  deriving DecidableEq

inductive LaneEventStatus where
  | running
  | ready
  | blocked
  | red
  | green
  | completed
  | failed
  | reconciled
  | merged
  | superseded
  | closed
  deriving DecidableEq

inductive LaneFailureClass where
  | promptDelivery
  | trustGate
  | branchDivergence
  | compile
  | test
  | pluginStartup
  | mcpStartup
  | mcpHandshake
  | gatewayRouting
  | toolRuntime
  | workspaceMismatch
  | infra
  deriving DecidableEq

inductive EventProvenance where
  | liveLane
  | test
  | healthcheck
  | replay
  | transport
  deriving DecidableEq

structure SessionIdentity where
  title : String
  workspace : String
  purpose : String
  placeholderReason : Option String
  deriving DecidableEq

inductive WatcherAction where
  | act
  | observe
  | ignore
  deriving DecidableEq

structure LaneOwnership where
  owner : String
  workflowScope : String
  watcherAction : WatcherAction
  deriving DecidableEq

inductive ConfidenceLevel where
  | high
  | medium
  | low
  | unknown
  deriving DecidableEq

structure LaneEventMetadata where
  seq : Nat
  provenance : EventProvenance
  sessionIdentity : Option SessionIdentity
  ownership : Option LaneOwnership
  nudgeId : Option String
  eventFingerprint : Option String
  timestampMs : Nat
  environmentLabel : Option String
  emitterIdentity : Option String
  confidenceLevel : Option ConfidenceLevel
  deriving DecidableEq

/-- `LaneEventMetadata::new`, at the time `now`. -/
def LaneEventMetadata.new (seq : Nat) (provenance : EventProvenance) (now : Nat) :
    LaneEventMetadata where
  seq := seq
  provenance := provenance
  sessionIdentity := none
  ownership := none
  nudgeId := none
  eventFingerprint := none
  timestampMs := now
  environmentLabel := none
  emitterIdentity := none
  confidenceLevel := none

structure LaneEvent (D : Type) where
  event : LaneEventName
  status : LaneEventStatus
  emittedAt : String
  failureClass : Option LaneFailureClass
  detail : Option String
  data : Option D
  metadata : LaneEventMetadata
  deriving DecidableEq

structure LaneEventBlocker (D : Type) where
  failureClass : LaneFailureClass
  detail : String
  subphase : Option D
  deriving DecidableEq

def isTerminalEvent (event : LaneEventName) : Bool :=
  match event with
  | .finished | .failed | .superseded | .closed | .merged => true
  | _ => false

/-- What a fingerprint is computed from; absent data is the JSON value null. -/
structure FingerprintPayload (D : Type) where
  event : LaneEventName
  status : LaneEventStatus
  data : D
  deriving DecidableEq

structure Digest (D : Type) where
  null : D
  digest : FingerprintPayload D → String

section Fingerprints

variable {D : Type} (sha : Digest D)

def fingerprintPayload (event : LaneEventName) (status : LaneEventStatus) (data : Option D) :
    FingerprintPayload D :=
  ⟨event, status, data.getD sha.null⟩

def computeEventFingerprint (event : LaneEventName) (status : LaneEventStatus)
    (data : Option D) : String :=
  sha.digest (fingerprintPayload sha event status data)

namespace LaneEvent

def payload (e : LaneEvent D) : FingerprintPayload D :=
  fingerprintPayload sha e.event e.status e.data

def new (event : LaneEventName) (status : LaneEventStatus) (emittedAt : String) (now : Nat) :
    LaneEvent D where
  event := event
  status := status
  emittedAt := emittedAt
  failureClass := none
  detail := none
  data := none
  metadata := .new 0 .liveLane now

def withFailureClass (e : LaneEvent D) (failureClass : LaneFailureClass) : LaneEvent D :=
  { e with failureClass := some failureClass }

def withDetail (e : LaneEvent D) (detail : String) : LaneEvent D :=
  { e with detail := some detail }

def withOptionalDetail (e : LaneEvent D) (detail : Option String) : LaneEvent D :=
  { e with detail }

def withTerminalFingerprint (e : LaneEvent D) : LaneEvent D :=
  if isTerminalEvent e.event then
    { e with
      metadata := { e.metadata with
        eventFingerprint := some (computeEventFingerprint sha e.event e.status e.data) } }
  else e

def withData (e : LaneEvent D) (data : D) : LaneEvent D :=
  let e := { e with data := some data }
  if isTerminalEvent e.event then withTerminalFingerprint sha e else e

def started (emittedAt : String) (now : Nat) : LaneEvent D := new .started .running emittedAt now

def finished (emittedAt : String) (detail : Option String) (now : Nat) : LaneEvent D :=
  withTerminalFingerprint sha ((new .finished .completed emittedAt now).withOptionalDetail detail)

def commitCreated (emittedAt : String) (detail : Option String) (provenance : D) (now : Nat) :
    LaneEvent D :=
  withData sha ((new .commitCreated .completed emittedAt now).withOptionalDetail detail) provenance

def superseded (emittedAt : String) (detail : Option String) (provenance : D) (now : Nat) :
    LaneEvent D :=
  withData sha ((new .superseded .superseded emittedAt now).withOptionalDetail detail) provenance

/-- What `blocked` and `failed` put into their events. -/
def withBlocker (e : LaneEvent D) (blocker : LaneEventBlocker D) : LaneEvent D :=
  let e := (e.withFailureClass blocker.failureClass).withDetail blocker.detail
  match blocker.subphase with
  | some subphase => withData sha e subphase
  | none => e

def blocked (emittedAt : String) (blocker : LaneEventBlocker D) (now : Nat) : LaneEvent D :=
  withBlocker sha (new .blocked .blocked emittedAt now) blocker

def failed (emittedAt : String) (blocker : LaneEventBlocker D) (now : Nat) : LaneEvent D :=
  withTerminalFingerprint sha (withBlocker sha (new .failed .failed emittedAt now) blocker)

def shipPrepared (emittedAt : String) (provenance : D) (now : Nat) : LaneEvent D :=
  withData sha (new .shipPrepared .ready emittedAt now) provenance

def shipCommitsSelected (emittedAt : String) (commitCount : UInt32) (commitRange : String)
    (now : Nat) : LaneEvent D :=
  (new .shipCommitsSelected .ready emittedAt now).withDetail
    s!"{commitCount} commits: {commitRange}"

def shipMerged (emittedAt : String) (provenance : D) (now : Nat) : LaneEvent D :=
  withData sha (new .shipMerged .completed emittedAt now) provenance

def shipPushedMain (emittedAt : String) (provenance : D) (now : Nat) : LaneEvent D :=
  withData sha (new .shipPushedMain .completed emittedAt now) provenance

end LaneEvent

/-- The builder. No method of it sets the fingerprint of the metadata. -/
structure LaneEventBuilder (D : Type) where
  event : LaneEventName
  status : LaneEventStatus
  emittedAt : String
  metadata : LaneEventMetadata
  detail : Option String
  failureClass : Option LaneFailureClass
  data : Option D
  unmarked : metadata.eventFingerprint = none

namespace LaneEventBuilder

def new (event : LaneEventName) (status : LaneEventStatus) (emittedAt : String) (seq : Nat)
    (provenance : EventProvenance) (now : Nat) : LaneEventBuilder D where
  event := event
  status := status
  emittedAt := emittedAt
  metadata := .new seq provenance now
  detail := none
  failureClass := none
  data := none
  unmarked := rfl

variable (b : LaneEventBuilder D)

def withSessionIdentity (identity : SessionIdentity) : LaneEventBuilder D :=
  { b with metadata := { b.metadata with sessionIdentity := some identity } }

def withOwnership (ownership : LaneOwnership) : LaneEventBuilder D :=
  { b with metadata := { b.metadata with ownership := some ownership } }

def withNudgeId (nudgeId : String) : LaneEventBuilder D :=
  { b with metadata := { b.metadata with nudgeId := some nudgeId } }

def withDetail (detail : String) : LaneEventBuilder D := { b with detail := some detail }

def withFailureClass (failureClass : LaneFailureClass) : LaneEventBuilder D :=
  { b with failureClass := some failureClass }

def withData (data : D) : LaneEventBuilder D := { b with data := some data }

def withEnvironment (label : String) : LaneEventBuilder D :=
  { b with metadata := { b.metadata with environmentLabel := some label } }

def withEmitter (emitter : String) : LaneEventBuilder D :=
  { b with metadata := { b.metadata with emitterIdentity := some emitter } }

def withConfidence (level : ConfidenceLevel) : LaneEventBuilder D :=
  { b with metadata := { b.metadata with confidenceLevel := some level } }

def build : LaneEvent D where
  event := b.event
  status := b.status
  emittedAt := b.emittedAt
  failureClass := b.failureClass
  detail := b.detail
  data := b.data
  metadata := b.metadata

def buildTerminal : LaneEvent D :=
  { b.build with
    metadata := { b.metadata with
      eventFingerprint := some (computeEventFingerprint sha b.event b.status b.data) } }

end LaneEventBuilder

def Produced (e : LaneEvent D) : Prop :=
  isTerminalEvent e.event = true → e.metadata.eventFingerprint = none ∨
    e.metadata.eventFingerprint = some (sha.digest (e.payload sha))

def Marked (e : LaneEvent D) : Prop :=
  isTerminalEvent e.event = true →
    e.metadata.eventFingerprint = some (sha.digest (e.payload sha))

def NoCollision (events : List (LaneEvent D)) : Prop :=
  ∀ a ∈ events, ∀ b ∈ events,
    sha.digest (a.payload sha) = sha.digest (b.payload sha) → a.payload sha = b.payload sha

variable {sha} {e : LaneEvent D}

theorem payload_eq_iff {a b : LaneEvent D} :
    a.payload sha = b.payload sha ↔
      a.event = b.event ∧ a.status = b.status ∧ a.data.getD sha.null = b.data.getD sha.null := by
  simp [LaneEvent.payload, fingerprintPayload]

theorem Marked.produced (h : Marked sha e) : Produced sha e := fun hterminal => .inr (h hterminal)

theorem marked_withTerminalFingerprint (e : LaneEvent D) :
    Marked sha (e.withTerminalFingerprint sha) := by
  intro hterminal
  unfold LaneEvent.withTerminalFingerprint at hterminal ⊢
  split
  · rfl
  · rename_i hnot
    rw [if_neg hnot] at hterminal
    exact absurd hterminal hnot

theorem marked_withData (e : LaneEvent D) (data : D) : Marked sha (e.withData sha data) := by
  unfold LaneEvent.withData
  dsimp only
  split
  · exact marked_withTerminalFingerprint _
  · rename_i hnot
    exact fun hterminal => absurd hterminal hnot

theorem Produced.withBlocker (h : Produced sha e) (blocker : LaneEventBlocker D) :
    Produced sha (e.withBlocker sha blocker) := by
  unfold LaneEvent.withBlocker
  cases blocker.subphase with
  | none => exact h
  | some subphase => exact (marked_withData _ subphase).produced

theorem produced_new (event : LaneEventName) (status : LaneEventStatus) (emittedAt : String)
    (now : Nat) : Produced sha (LaneEvent.new event status emittedAt now) :=
  fun _ => .inl rfl

theorem marked_buildTerminal (b : LaneEventBuilder D) : Marked sha (b.buildTerminal sha) :=
  fun _ => rfl

variable (sha) in
inductive Constructed : LaneEvent D → Prop where
  | new (event : LaneEventName) (status : LaneEventStatus) (emittedAt : String) (now : Nat) :
      Constructed (.new event status emittedAt now)
  | started (emittedAt : String) (now : Nat) : Constructed (.started emittedAt now)
  | finished (emittedAt : String) (detail : Option String) (now : Nat) :
      Constructed (.finished sha emittedAt detail now)
  | commitCreated (emittedAt : String) (detail : Option String) (provenance : D) (now : Nat) :
      Constructed (.commitCreated sha emittedAt detail provenance now)
  | superseded (emittedAt : String) (detail : Option String) (provenance : D) (now : Nat) :
      Constructed (.superseded sha emittedAt detail provenance now)
  | blocked (emittedAt : String) (blocker : LaneEventBlocker D) (now : Nat) :
      Constructed (.blocked sha emittedAt blocker now)
  | failed (emittedAt : String) (blocker : LaneEventBlocker D) (now : Nat) :
      Constructed (.failed sha emittedAt blocker now)
  | shipPrepared (emittedAt : String) (provenance : D) (now : Nat) :
      Constructed (.shipPrepared sha emittedAt provenance now)
  | shipCommitsSelected (emittedAt : String) (commitCount : UInt32) (commitRange : String)
      (now : Nat) : Constructed (.shipCommitsSelected emittedAt commitCount commitRange now)
  | shipMerged (emittedAt : String) (provenance : D) (now : Nat) :
      Constructed (.shipMerged sha emittedAt provenance now)
  | shipPushedMain (emittedAt : String) (provenance : D) (now : Nat) :
      Constructed (.shipPushedMain sha emittedAt provenance now)
  | withFailureClass {e : LaneEvent D} (h : Constructed e) (failureClass : LaneFailureClass) :
      Constructed (e.withFailureClass failureClass)
  | withDetail {e : LaneEvent D} (h : Constructed e) (detail : String) :
      Constructed (e.withDetail detail)
  | withOptionalDetail {e : LaneEvent D} (h : Constructed e) (detail : Option String) :
      Constructed (e.withOptionalDetail detail)
  | withData {e : LaneEvent D} (h : Constructed e) (data : D) : Constructed (e.withData sha data)
  | build (b : LaneEventBuilder D) : Constructed b.build
  | buildTerminal (b : LaneEventBuilder D) : Constructed (b.buildTerminal sha)

theorem Constructed.produced (h : Constructed sha e) : Produced sha e := by
  induction h with
  | new event status emittedAt now => exact produced_new event status emittedAt now
  | finished | failed => exact (marked_withTerminalFingerprint _).produced
  | commitCreated | superseded | shipPrepared | shipMerged | shipPushedMain =>
    exact (marked_withData _ _).produced
  | blocked emittedAt blocker now => exact (produced_new _ _ emittedAt now).withBlocker blocker
  | started emittedAt now => exact produced_new .started .running emittedAt now
  | shipCommitsSelected emittedAt commitCount commitRange now =>
    exact produced_new .shipCommitsSelected .ready emittedAt now
  -- A failure class and a detail are not in the payload.
  | withFailureClass _ _ ih | withDetail _ _ ih | withOptionalDetail _ _ ih => exact ih
  | withData => exact (marked_withData _ _).produced
  | build b => exact fun _ => .inl b.unmarked
  | buildTerminal b => exact (marked_buildTerminal b).produced

end Fingerprints

end DbClinic.Runtime.Lane
