import Mathlib.Data.List.Sort
import DbClinic.Runtime.Json

/-!
Reports with claims of several sensitivities, and their projection for a consumer.
The digest of a JSON value (the first eight bytes of its SHA-256 in hexadecimal) is a
parameter. The sets of a consumer are lists that are only asked for membership.
-/

namespace DbClinic.Runtime.Report

open DbClinic.Serde

def REPORT_SCHEMA_V1 : String := "claw.report.v1"

def DEFAULT_PROJECTION_POLICY_V1 : String := "claw.report.projection.v1"

inductive ClaimKind where
  | observedFact
  | inference
  | hypothesis
  | recommendation
  deriving DecidableEq

inductive ReportConfidence where
  | high
  | medium
  | low
  | unknown
  deriving DecidableEq

inductive SensitivityClass where
  | isPublic
  | internal
  | operatorOnly
  | secret
  deriving DecidableEq

/-- The place in the derived order. -/
def SensitivityClass.rank : SensitivityClass → Nat
  | isPublic => 0
  | internal => 1
  | operatorOnly => 2
  | secret => 3

instance : LE SensitivityClass := ⟨fun a b => a.rank ≤ b.rank⟩

instance (a b : SensitivityClass) : Decidable (a ≤ b) := inferInstanceAs (Decidable (_ ≤ _))

inductive FieldDeltaState where
  | changed
  | unchanged
  | cleared
  | carriedForward
  deriving DecidableEq

inductive NegativeFindingStatus where
  | notObservedInCheckedScope
  | unknownNotChecked
  deriving DecidableEq

structure ReportClaim where
  id : String
  kind : ClaimKind
  text : String
  confidence : ReportConfidence
  evidence : List String
  sensitivity : SensitivityClass
  deriving DecidableEq

structure NegativeEvidence where
  id : String
  status : NegativeFindingStatus
  checkedSurfaces : List String
  query : String
  window : String
  sensitivity : SensitivityClass
  deriving DecidableEq

structure FieldDelta where
  field : String
  state : FieldDeltaState
  previousHash : Option String
  currentHash : Option String
  attribution : String
  deriving DecidableEq

structure ReportIdentity where
  reportId : String
  contentHash : String
  deriving DecidableEq

structure CanonicalReportV1 where
  schemaVersion : String
  identity : ReportIdentity
  generatedAt : String
  producer : String
  claims : List ReportClaim
  negativeEvidence : List NegativeEvidence
  fieldDeltas : List FieldDelta
  deriving DecidableEq

structure ConsumerCapabilities where
  consumer : String
  schemaVersions : List String
  fieldFamilies : List String
  maxSensitivity : SensitivityClass
  deriving DecidableEq

structure RedactionProvenance where
  fieldPath : String
  reason : String
  policyId : String
  originalHash : String
  deriving DecidableEq

structure ProjectionProvenance where
  policyId : String
  sourceSchemaVersion : String
  sourceReportId : String
  sourceContentHash : String
  consumer : String
  downgraded : Bool
  omittedFieldFamilies : List String
  redactions : List RedactionProvenance
  deriving DecidableEq

structure ReportProjectionV1 where
  schemaVersion : String
  projectionId : String
  view : String
  provenance : ProjectionProvenance
  payload : Value

def ClaimKind.name : ClaimKind → String
  | observedFact => "observed_fact"
  | inference => "inference"
  | hypothesis => "hypothesis"
  | recommendation => "recommendation"

def ReportConfidence.name : ReportConfidence → String
  | high => "high"
  | medium => "medium"
  | low => "low"
  | unknown => "unknown"

def SensitivityClass.name : SensitivityClass → String
  | isPublic => "public"
  | internal => "internal"
  | operatorOnly => "operator_only"
  | secret => "secret"

def FieldDeltaState.name : FieldDeltaState → String
  | changed => "changed"
  | unchanged => "unchanged"
  | cleared => "cleared"
  | carriedForward => "carried_forward"

def NegativeFindingStatus.name : NegativeFindingStatus → String
  | notObservedInCheckedScope => "not_observed_in_checked_scope"
  | unknownNotChecked => "unknown_not_checked"

def listField (key : String) (values : List Value) : List (String × Value) :=
  if values = [] then [] else [(key, .array values)]

def stringsField (key : String) (values : List String) : List (String × Value) :=
  listField key (values.map .string)

def optionField (key : String) : Option String → List (String × Value)
  | some value => [(key, .string value)]
  | none => []

def ReportClaim.toValue (claim : ReportClaim) : Value :=
  .object (entriesOf (
    [("id", .string claim.id), ("kind", .string claim.kind.name), ("text", .string claim.text),
      ("confidence", .string claim.confidence.name)] ++ stringsField "evidence" claim.evidence ++
    [("sensitivity", .string claim.sensitivity.name)]))

def NegativeEvidence.toValue (finding : NegativeEvidence) : Value :=
  .object (entriesOf (
    [("id", .string finding.id), ("status", .string finding.status.name)] ++
    stringsField "checked_surfaces" finding.checkedSurfaces ++
    [("query", .string finding.query), ("window", .string finding.window),
      ("sensitivity", .string finding.sensitivity.name)]))

def FieldDelta.toValue (delta : FieldDelta) : Value :=
  .object (entriesOf (
    [("field", .string delta.field), ("state", .string delta.state.name)] ++
    optionField "previous_hash" delta.previousHash ++
    optionField "current_hash" delta.currentHash ++ [("attribution", .string delta.attribution)]))

def ReportIdentity.toValue (identity : ReportIdentity) : Value :=
  .object (entriesOf
    [("report_id", .string identity.reportId), ("content_hash", .string identity.contentHash)])

def CanonicalReportV1.toValue (report : CanonicalReportV1) : Value :=
  .object (entriesOf (
    [("schema_version", .string report.schemaVersion), ("identity", report.identity.toValue),
      ("generated_at", .string report.generatedAt), ("producer", .string report.producer)] ++
    listField "claims" (report.claims.map ReportClaim.toValue) ++
    listField "negative_evidence" (report.negativeEvidence.map NegativeEvidence.toValue) ++
    listField "field_deltas" (report.fieldDeltas.map FieldDelta.toValue)))

def RedactionProvenance.toValue (redaction : RedactionProvenance) : Value :=
  .object (entriesOf
    [("field_path", .string redaction.fieldPath), ("reason", .string redaction.reason),
      ("policy_id", .string redaction.policyId),
      ("original_hash", .string redaction.originalHash)])

def ProjectionProvenance.toValue (provenance : ProjectionProvenance) : Value :=
  .object (entriesOf (
    [("policy_id", .string provenance.policyId),
      ("source_schema_version", .string provenance.sourceSchemaVersion),
      ("source_report_id", .string provenance.sourceReportId),
      ("source_content_hash", .string provenance.sourceContentHash),
      ("consumer", .string provenance.consumer), ("downgraded", .bool provenance.downgraded)] ++
    stringsField "omitted_field_families" provenance.omittedFieldFamilies ++
    listField "redactions" (provenance.redactions.map RedactionProvenance.toValue)))

mutual

/-- The keys of every object in their order. -/
def normalizeJson : Value → Value
  | .array values => .array (normalizeValues values)
  | .object entries => .object (entriesOf (normalizeEntries entries))
  | other => other

def normalizeValues : List Value → List Value
  | [] => []
  | value :: rest => normalizeJson value :: normalizeValues rest

def normalizeEntries : List (String × Value) → List (String × Value)
  | [] => []
  | (key, value) :: rest => (key, normalizeJson value) :: normalizeEntries rest

end

section Digest

variable (digest : Value → String)

def stableJsonHash (value : Value) : String := digest (normalizeJson value)

def reportContentHash (report : CanonicalReportV1) : String :=
  stableJsonHash digest { report with identity := ⟨"", ""⟩ }.toValue

def canonicalizeReport (report : CanonicalReportV1) : CanonicalReportV1 :=
  let sorted := { report with
    schemaVersion := REPORT_SCHEMA_V1
    claims := report.claims.mergeSort fun a b => decide (a.id ≤ b.id)
    negativeEvidence := report.negativeEvidence.mergeSort fun a b => decide (a.id ≤ b.id)
    fieldDeltas := report.fieldDeltas.mergeSort fun a b => decide (a.field ≤ b.field) }
  let contentHash := reportContentHash digest sorted
  { sorted with
    identity :=
      ⟨if report.identity.reportId = "" then "report-" ++ contentHash else report.identity.reportId,
        contentHash⟩ }

def supportsFamily (capabilities : ConsumerCapabilities) (family : String) : Bool :=
  decide (capabilities.fieldFamilies = []) || decide (family ∈ capabilities.fieldFamilies)

def redactClaim (index : Nat) (claim : ReportClaim) (capabilities : ConsumerCapabilities) :
    Option Value × List RedactionProvenance :=
  if claim.sensitivity ≤ capabilities.maxSensitivity then (some claim.toValue, [])
  else
    let originalHash := stableJsonHash digest claim.toValue
    if claim.sensitivity = .secret then
      (none, [⟨"claims[" ++ toString index ++ "]", "omitted: sensitivity exceeds consumer policy",
        DEFAULT_PROJECTION_POLICY_V1, originalHash⟩])
    else
      (some { claim with text := "<redacted>", evidence := [] }.toValue,
        [⟨"claims[" ++ toString index ++ "].text",
          "transformed: sensitivity exceeds consumer policy", DEFAULT_PROJECTION_POLICY_V1,
          originalHash⟩])

def familyField (capabilities : ConsumerCapabilities) (family : String) (values : List Value) :
    List (String × Value) :=
  if supportsFamily capabilities family then [(family, .array values)] else []

def projectReport (report : CanonicalReportV1) (capabilities : ConsumerCapabilities)
    (view : String) : ReportProjectionV1 :=
  let redacted := report.claims.zipIdx.map fun entry =>
    redactClaim digest entry.2 entry.1 capabilities
  let payload := Value.object (entriesOf (
    [("identity", report.identity.toValue), ("generated_at", .string report.generatedAt),
      ("producer", .string report.producer)] ++
    familyField capabilities "claims" (redacted.filterMap Prod.fst) ++
    familyField capabilities "negative_evidence"
      (report.negativeEvidence.map NegativeEvidence.toValue) ++
    familyField capabilities "field_deltas" (report.fieldDeltas.map FieldDelta.toValue)))
  let omitted := ["claims", "negative_evidence", "field_deltas"].filter fun family =>
    !supportsFamily capabilities family
  let redactions := if supportsFamily capabilities "claims" then redacted.flatMap Prod.snd else []
  let provenance : ProjectionProvenance :=
    ⟨DEFAULT_PROJECTION_POLICY_V1, report.schemaVersion, report.identity.reportId,
      report.identity.contentHash, capabilities.consumer,
      decide (REPORT_SCHEMA_V1 ∉ capabilities.schemaVersions) || decide (omitted ≠ []) ||
        decide (redactions ≠ []), omitted, redactions⟩
  ⟨REPORT_SCHEMA_V1,
    stableJsonHash digest (.object (entriesOf
      [("view", .string view), ("provenance", provenance.toValue), ("payload", payload)])),
    view, provenance, payload⟩

end Digest

end DbClinic.Runtime.Report
