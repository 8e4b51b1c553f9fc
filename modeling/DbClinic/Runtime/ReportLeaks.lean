import DbClinic.Lib.SortBy
import Mathlib.Data.List.Forall2
import Mathlib.Data.String.Basic
import DbClinic.Runtime.ReportSchema
import DbClinic.Runtime.JsonRoundTrip

/-!
What a consumer learns from a projection. Two reports that differ only in what is
above the sensitivity of the consumer are to be shown alike. Claims are shown by their
sensitivity, negative findings are shown as they are.
-/

namespace DbClinic.Runtime.Report

open DbClinic.Serde List

/-- Claims that agree on what a consumer may see. -/
structure ClaimLowEq (level : SensitivityClass) (a b : ReportClaim) : Prop where
  id : a.id = b.id
  kind : a.kind = b.kind
  confidence : a.confidence = b.confidence
  sensitivity : a.sensitivity = b.sensitivity
  visible : a.sensitivity ≤ level → a.text = b.text ∧ a.evidence = b.evidence

/-- Findings that agree on what a consumer may see. -/
structure FindingLowEq (level : SensitivityClass) (a b : NegativeEvidence) : Prop where
  id : a.id = b.id
  status : a.status = b.status
  sensitivity : a.sensitivity = b.sensitivity
  visible : a.sensitivity ≤ level →
    a.query = b.query ∧ a.window = b.window ∧ a.checkedSurfaces = b.checkedSurfaces

/-- Reports that differ only in their identity and in what is above a sensitivity. -/
structure LowEq (level : SensitivityClass) (a b : CanonicalReportV1) : Prop where
  schemaVersion : a.schemaVersion = b.schemaVersion
  generatedAt : a.generatedAt = b.generatedAt
  producer : a.producer = b.producer
  claims : List.Forall₂ (ClaimLowEq level) a.claims b.claims
  negativeEvidence : List.Forall₂ (FindingLowEq level) a.negativeEvidence b.negativeEvidence
  fieldDeltas : a.fieldDeltas = b.fieldDeltas

def SamePayload (a b : ReportProjectionV1) : Prop :=
  ∀ key, key ≠ "identity" → a.payload.get key = b.payload.get key

def Canonical (digest : Value → String) (report : CanonicalReportV1) : Prop :=
  ∃ raw, report = canonicalizeReport digest raw

def hidden (level : SensitivityClass) (claim : ReportClaim) : Bool :=
  !decide (claim.sensitivity ≤ level) && decide (claim.sensitivity = .secret)

def withoutSecrets (level : SensitivityClass) (report : CanonicalReportV1) : CanonicalReportV1 :=
  { report with claims := report.claims.filter fun claim => !hidden level claim }

section Projection

variable {digest : Value → String} {capabilities : ConsumerCapabilities} {view : String}

/-- What is shown of a claim; where it stands is only noted. -/
def shownClaim (capabilities : ConsumerCapabilities) (claim : ReportClaim) : Option Value :=
  if claim.sensitivity ≤ capabilities.maxSensitivity then some claim.toValue
  else if claim.sensitivity = .secret then none
  else some { claim with text := "<redacted>", evidence := [] }.toValue

theorem redactClaim_shown (digest : Value → String) (index : Nat) (claim : ReportClaim) :
    (redactClaim digest index claim capabilities).1 = shownClaim capabilities claim := by
  unfold redactClaim shownClaim
  split
  · rfl
  · dsimp only
    split
    · rfl
    · rfl

theorem shownClaims_eq (digest : Value → String) (claims : List ReportClaim) :
    ((claims.zipIdx.map fun entry => redactClaim digest entry.2 entry.1 capabilities).filterMap
      Prod.fst) = claims.filterMap (shownClaim capabilities) := by
  have hshown (entry : ReportClaim × Nat) :
      (redactClaim digest entry.2 entry.1 capabilities).1 = shownClaim capabilities entry.1 :=
    redactClaim_shown digest entry.2 entry.1
  rw [filterMap_map]
  have hfun : Prod.fst ∘ (fun entry : ReportClaim × Nat =>
      redactClaim digest entry.2 entry.1 capabilities) =
        shownClaim capabilities ∘ Prod.fst := funext hshown
  rw [hfun, ← filterMap_map, zipIdx_map_fst]

/-- The entries of a payload behind the identity. -/
def shownFields (report : CanonicalReportV1) (capabilities : ConsumerCapabilities) :
    List (String × Value) :=
  [("generated_at", .string report.generatedAt), ("producer", .string report.producer)] ++
    familyField capabilities "claims" (report.claims.filterMap (shownClaim capabilities)) ++
    familyField capabilities "negative_evidence"
      (report.negativeEvidence.map NegativeEvidence.toValue) ++
    familyField capabilities "field_deltas" (report.fieldDeltas.map FieldDelta.toValue)

theorem payload_get (report : CanonicalReportV1) {key : String} (hkey : key ≠ "identity") :
    (projectReport digest report capabilities view).payload.get key =
      getEntry (shownFields report capabilities).reverse key := by
  have hpayload : (projectReport digest report capabilities view).payload =
      .object (entriesOf (("identity", report.identity.toValue) ::
        shownFields report capabilities)) := by
    rw [shownFields, ← shownClaims_eq digest]
    rfl
  rw [hpayload, Value.get, getEntry_entriesOf, reverse_cons, getEntry_append, getEntry_cons,
    if_neg hkey.symm, getEntry_nil, Option.or_none]

variable {a b : CanonicalReportV1} {level : SensitivityClass} {α : Type}

theorem samePayload_of_fields (h : shownFields a capabilities = shownFields b capabilities) :
    SamePayload (projectReport digest a capabilities view)
      (projectReport digest b capabilities view) := by
  intro key hkey
  rw [payload_get a hkey, payload_get b hkey, h]

theorem shownClaim_lowEq {a b : ReportClaim}
    (h : ClaimLowEq capabilities.maxSensitivity a b) :
    shownClaim capabilities a = shownClaim capabilities b := by
  have hid := h.id
  have hkind := h.kind
  have hconfidence := h.confidence
  have hsensitivity := h.sensitivity
  unfold shownClaim
  rw [← hsensitivity]
  split
  · rename_i hle
    obtain ⟨htext, hevidence⟩ := h.visible hle
    have heq : a = b := by
      cases a
      cases b
      simp_all
    rw [heq]
  · split
    · rfl
    · simp [ReportClaim.toValue, hid, hkind, hconfidence, hsensitivity]

theorem shownClaims_lowEq {a b : List ReportClaim}
    (h : List.Forall₂ (ClaimLowEq capabilities.maxSensitivity) a b) :
    a.filterMap (shownClaim capabilities) = b.filterMap (shownClaim capabilities) := by
  induction h with
  | nil => rfl
  | cons hclaim _ ih =>
    rw [filterMap_cons, filterMap_cons, shownClaim_lowEq hclaim, ih]

theorem FindingLowEq.eq_of_visible {a b : NegativeEvidence} (h : FindingLowEq level a b)
    (hle : a.sensitivity ≤ level) : a = b := by
  obtain ⟨hquery, hwindow, hsurfaces⟩ := h.visible hle
  have hid := h.id
  have hstatus := h.status
  have hsensitivity := h.sensitivity
  cases a
  cases b
  simp_all

theorem findings_eq_of_visible {a b : List NegativeEvidence}
    (h : List.Forall₂ (FindingLowEq level) a b) (hle : ∀ finding ∈ a, finding.sensitivity ≤ level) :
    a = b := by
  induction h with
  | nil => rfl
  | cons hfinding _ ih =>
    rw [hfinding.eq_of_visible (hle _ mem_cons_self),
      ih fun finding hmem => hle finding (mem_cons_of_mem _ hmem)]

theorem samePayload_of_protected (hlow : LowEq capabilities.maxSensitivity a b)
    (h : supportsFamily capabilities "negative_evidence" = false ∨
      ∀ finding ∈ a.negativeEvidence, finding.sensitivity ≤ capabilities.maxSensitivity) :
    SamePayload (projectReport digest a capabilities view)
      (projectReport digest b capabilities view) := by
  apply samePayload_of_fields
  have hfindings : familyField capabilities "negative_evidence"
      (a.negativeEvidence.map NegativeEvidence.toValue) =
        familyField capabilities "negative_evidence"
          (b.negativeEvidence.map NegativeEvidence.toValue) := by
    rcases h with hnone | hvisible
    · simp [familyField, hnone]
    · rw [findings_eq_of_visible hlow.negativeEvidence hvisible]
  rw [shownFields, shownFields, hlow.generatedAt, hlow.producer, shownClaims_lowEq hlow.claims,
    hfindings, hlow.fieldDeltas]

theorem shownClaim_hidden {claim : ReportClaim}
    (h : hidden capabilities.maxSensitivity claim = true) : shownClaim capabilities claim = none := by
  obtain ⟨habove, hsecret⟩ : ¬claim.sensitivity ≤ capabilities.maxSensitivity ∧
      claim.sensitivity = .secret := by
    simpa [hidden] using h
  rw [shownClaim, if_neg habove, if_pos hsecret]

theorem findings_of_samePayload (hsupports : supportsFamily capabilities "negative_evidence" = true)
    (h : SamePayload (projectReport digest a capabilities view)
      (projectReport digest b capabilities view)) :
    a.negativeEvidence.map NegativeEvidence.toValue =
      b.negativeEvidence.map NegativeEvidence.toValue := by
  have hget (shown : CanonicalReportV1) :
      (projectReport digest shown capabilities view).payload.get "negative_evidence" =
        some (.array (shown.negativeEvidence.map NegativeEvidence.toValue)) := by
    rw [payload_get shown (by decide), shownFields]
    unfold familyField
    rw [if_pos hsupports]
    cases supportsFamily capabilities "field_deltas" with
    | true => simp
    | false => simp
  have hshown := h "negative_evidence" (by decide)
  rw [hget, hget] at hshown
  exact Value.array.inj (Option.some.inj hshown)

theorem samePayload_withoutSecrets (report : CanonicalReportV1) :
    SamePayload (projectReport digest report capabilities view)
      (projectReport digest (withoutSecrets capabilities.maxSensitivity report) capabilities
        view) := by
  apply samePayload_of_fields
  have hclaims : ∀ claims : List ReportClaim,
      (claims.filter fun claim => !hidden capabilities.maxSensitivity claim).filterMap
        (shownClaim capabilities) = claims.filterMap (shownClaim capabilities) := by
    intro claims
    induction claims with
    | nil => rfl
    | cons claim rest ih =>
      cases hhidden : hidden capabilities.maxSensitivity claim with
      | true =>
        rw [filter_cons_of_neg (by simp [hhidden]), ih, filterMap_cons,
          shownClaim_hidden hhidden]
      | false =>
        rw [filter_cons_of_pos (by simp [hhidden]), filterMap_cons, ih,
          filterMap_cons]
  rw [shownFields, shownFields, withoutSecrets]
  dsimp only
  rw [hclaims]

def requery (level : SensitivityClass) (finding : NegativeEvidence) : NegativeEvidence :=
  if finding.sensitivity ≤ level then finding
  else { finding with query := finding.query ++ "x" }

theorem requery_lowEq (level : SensitivityClass) (finding : NegativeEvidence) :
    FindingLowEq level finding (requery level finding) := by
  by_cases hle : finding.sensitivity ≤ level
  · rw [requery, if_pos hle]
    exact ⟨rfl, rfl, rfl, fun _ => ⟨rfl, rfl, rfl⟩⟩
  · rw [requery, if_neg hle]
    exact ⟨rfl, rfl, rfl, fun h => absurd h hle⟩

theorem toValue_query (finding : NegativeEvidence) :
    finding.toValue.get "query" = some (.string finding.query) := by
  rw [NegativeEvidence.toValue, Value.get, getEntry_entriesOf]
  simp

theorem toValue_requery {finding : NegativeEvidence} (h : ¬finding.sensitivity ≤ level) :
    (requery level finding).toValue ≠ finding.toValue := by
  intro heq
  have hquery := congrArg (fun value => value.get "query") heq
  simp only [toValue_query, requery, if_neg h, Option.some.injEq, Value.string.injEq] at hquery
  have hlen := congrArg String.length hquery
  simp at hlen

/-- A list in the order of its keys. -/
def KeySorted {α : Type} (key : α → String) (items : List α) : Prop :=
  items.Pairwise fun a b => key a ≤ key b

theorem keySorted_mergeSort (key : α → String) (items : List α) :
    KeySorted key (items.mergeSort fun a b => decide (key a ≤ key b)) :=
  SortDedup.sorted_mergeSort items

theorem mergeSort_of_keySorted {key : α → String} {items : List α} (h : KeySorted key items) :
    items.mergeSort (fun a b => decide (key a ≤ key b)) = items :=
  SortDedup.mergeSort_eq_self h

theorem canonical_requery {digest : Value → String} {report : CanonicalReportV1}
    (h : Canonical digest report) (level : SensitivityClass) :
    ∃ other, Canonical digest other ∧ LowEq level report other ∧
      other.negativeEvidence = report.negativeEvidence.map (requery level) := by
  obtain ⟨raw, hreport⟩ := h
  have hversion : report.schemaVersion = REPORT_SCHEMA_V1 := by rw [hreport]; rfl
  have hclaims : KeySorted ReportClaim.id report.claims := by
    rw [hreport]
    exact keySorted_mergeSort ReportClaim.id raw.claims
  have hfindings : KeySorted NegativeEvidence.id (report.negativeEvidence.map (requery level)) := by
    have hid (finding : NegativeEvidence) : (requery level finding).id = finding.id :=
      (requery_lowEq level finding).id.symm
    have hsorted : KeySorted NegativeEvidence.id report.negativeEvidence := by
      rw [hreport]
      exact keySorted_mergeSort NegativeEvidence.id raw.negativeEvidence
    exact pairwise_map.mpr (hsorted.imp fun hle => by simpa [hid] using hle)
  have hdeltas : KeySorted FieldDelta.field report.fieldDeltas := by
    rw [hreport]
    exact keySorted_mergeSort FieldDelta.field raw.fieldDeltas
  let changed := { report with
    negativeEvidence := report.negativeEvidence.map (requery level) }
  have hresorted : (canonicalizeReport digest changed).negativeEvidence =
      report.negativeEvidence.map (requery level) := mergeSort_of_keySorted hfindings
  refine ⟨canonicalizeReport digest changed, ⟨changed, rfl⟩, ?_, hresorted⟩
  refine ⟨hversion, rfl, rfl, ?_, ?_, (mergeSort_of_keySorted hdeltas).symm⟩
  · have hsame : (canonicalizeReport digest changed).claims = report.claims :=
      mergeSort_of_keySorted hclaims
    rw [hsame]
    exact forall₂_same.mpr fun claim _ => ⟨rfl, rfl, rfl, rfl, fun _ => ⟨rfl, rfl⟩⟩
  · rw [hresorted, forall₂_map_right_iff]
    exact forall₂_same.mpr fun finding _ => requery_lowEq level finding

end Projection

/-- A canonical report is protected from a consumer: every canonical report that
differs from it only above the sensitivity is shown alike, and secret claims above it
leave no trace. -/
def Protected (digest : Value → String) (capabilities : ConsumerCapabilities) (view : String)
    (report : CanonicalReportV1) : Prop :=
  (∀ other, Canonical digest other → LowEq capabilities.maxSensitivity report other →
    SamePayload (projectReport digest report capabilities view)
      (projectReport digest other capabilities view)) ∧
  SamePayload (projectReport digest report capabilities view)
    (projectReport digest (withoutSecrets capabilities.maxSensitivity report) capabilities view)

def operatorFinding (query : String) : NegativeEvidence :=
  ⟨"n", .notObservedInCheckedScope, [], query, "", .operatorOnly⟩

def reportOf (findings : List NegativeEvidence) : CanonicalReportV1 :=
  canonicalizeReport (fun _ => "h") ⟨"", ⟨"", ""⟩, "", "", [], findings, []⟩

def publicConsumer : ConsumerCapabilities := ⟨"c", [], [], .isPublic⟩

end DbClinic.Runtime.Report
