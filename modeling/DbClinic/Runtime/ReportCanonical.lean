import DbClinic.Lib.SortBy
import DbClinic.Runtime.JsonRoundTrip
import DbClinic.Runtime.ReportSchema

/-!
The canonical form of a report: what it was sorted from, which identity it had and in what
order the keys of its value stand do not show in it.
-/

namespace DbClinic.Runtime

namespace Report

open DbClinic.Serde SortDedup

mutual

/-- The same value but for the order of the entries of its objects, at every depth. -/
inductive Reordered : Value → Value → Prop
  | same (value : Value) : Reordered value value
  | array {values others : List Value} (h : ReorderedValues values others) :
      Reordered (.array values) (.array others)
  | object {entries changed others : List (String × Value)}
      (hkeys : (entries.map Prod.fst).Nodup) (h : ReorderedEntries entries changed)
      (hperm : changed.Perm others) : Reordered (.object entries) (.object others)

inductive ReorderedValues : List Value → List Value → Prop
  | nil : ReorderedValues [] []
  | cons {value other : Value} {values others : List Value} (h : Reordered value other)
      (hrest : ReorderedValues values others) :
      ReorderedValues (value :: values) (other :: others)

inductive ReorderedEntries : List (String × Value) → List (String × Value) → Prop
  | nil : ReorderedEntries [] []
  | cons {key : String} {value other : Value} {entries others : List (String × Value)}
      (h : Reordered value other) (hrest : ReorderedEntries entries others) :
      ReorderedEntries ((key, value) :: entries) ((key, other) :: others)

end

theorem normalizeEntries_eq_map (entries : List (String × Value)) :
    normalizeEntries entries = entries.map fun e => (e.1, normalizeJson e.2) := by
  induction entries with
  | nil => rfl
  | cons e rest ih => simp [normalizeEntries, ih]

theorem normalizeEntries_keys (entries : List (String × Value)) :
    (normalizeEntries entries).map Prod.fst = entries.map Prod.fst := by
  simp [normalizeEntries_eq_map]

mutual

theorem normalizeJson_eq_of_reordered {value other : Value} (h : Reordered value other) :
    normalizeJson value = normalizeJson other := by
  cases h with
  | same => rfl
  | array h => simp only [normalizeJson, normalizeValues_eq_of_reordered h]
  | object hkeys h hperm =>
    have hents := normalizeEntries_eq_of_reordered h
    simp only [normalizeJson, hents]
    congr 1
    apply entriesOf_eq_of_perm
    · simp only [normalizeEntries_eq_map]
      exact hperm.map _
    · rw [← hents, normalizeEntries_keys]
      exact hkeys

theorem normalizeValues_eq_of_reordered {values others : List Value}
    (h : ReorderedValues values others) : normalizeValues values = normalizeValues others := by
  cases h with
  | nil => rfl
  | cons h hrest =>
    simp only [normalizeValues, normalizeJson_eq_of_reordered h,
      normalizeValues_eq_of_reordered hrest]

theorem normalizeEntries_eq_of_reordered {entries others : List (String × Value)}
    (h : ReorderedEntries entries others) : normalizeEntries entries = normalizeEntries others := by
  cases h with
  | nil => rfl
  | cons h hrest =>
    simp only [normalizeEntries, normalizeJson_eq_of_reordered h,
      normalizeEntries_eq_of_reordered hrest]

end

variable (digest : Value → String)

/-- The sorted report, before its identity is filled in. -/
def sortedReport (report : CanonicalReportV1) : CanonicalReportV1 :=
  { report with
    schemaVersion := REPORT_SCHEMA_V1
    claims := report.claims.mergeSort fun a b => decide (a.id ≤ b.id)
    negativeEvidence := report.negativeEvidence.mergeSort fun a b => decide (a.id ≤ b.id)
    fieldDeltas := report.fieldDeltas.mergeSort fun a b => decide (a.field ≤ b.field) }

theorem canonicalizeReport_eq (report : CanonicalReportV1) :
    canonicalizeReport digest report =
      { sortedReport report with
        identity :=
          ⟨if report.identity.reportId = "" then
              "report-" ++ reportContentHash digest (sortedReport report)
            else report.identity.reportId,
            reportContentHash digest (sortedReport report)⟩ } := rfl

theorem reportContentHash_identity (report : CanonicalReportV1) (identity : ReportIdentity) :
    reportContentHash digest { report with identity := identity } =
      reportContentHash digest report := rfl

theorem sortedReport_idempotent (report : CanonicalReportV1) (identity : ReportIdentity) :
    sortedReport { sortedReport report with identity := identity } =
      { sortedReport report with identity := identity } := by
  simp only [sortedReport, CanonicalReportV1.mk.injEq, true_and]
  exact ⟨mergeSort_eq_self (sorted_mergeSort report.claims),
    mergeSort_eq_self (sorted_mergeSort report.negativeEvidence),
    mergeSort_eq_self (sorted_mergeSort report.fieldDeltas)⟩

theorem sortedReport_eq_of_perm {report : CanonicalReportV1} {claims : List ReportClaim}
    {findings : List NegativeEvidence} {deltas : List FieldDelta}
    (hclaims : claims.Perm report.claims) (hfindings : findings.Perm report.negativeEvidence)
    (hdeltas : deltas.Perm report.fieldDeltas)
    (hclaimIds : (report.claims.map ReportClaim.id).Nodup)
    (hfindingIds : (report.negativeEvidence.map NegativeEvidence.id).Nodup)
    (hfields : (report.fieldDeltas.map FieldDelta.field).Nodup) :
    sortedReport { report with
      claims := claims, negativeEvidence := findings, fieldDeltas := deltas } =
        sortedReport report := by
  simp only [sortedReport, CanonicalReportV1.mk.injEq, true_and]
  exact ⟨(mergeSort_eq_of_perm hclaims.symm hclaimIds).symm,
    (mergeSort_eq_of_perm hfindings.symm hfindingIds).symm,
    (mergeSort_eq_of_perm hdeltas.symm hfields).symm⟩

theorem canonicalizeReport_idempotent (report : CanonicalReportV1) :
    canonicalizeReport digest (canonicalizeReport digest report) =
      canonicalizeReport digest report := by
  have hfilled : "report-" ++ reportContentHash digest (sortedReport report) ≠ "" := by
    intro hempty
    have hlen := congrArg String.length hempty
    simp at hlen
  simp only [canonicalizeReport_eq, sortedReport_idempotent, reportContentHash_identity]
  by_cases hid : report.identity.reportId = ""
  · simp [hid, hfilled]
  · simp [hid]

structure CanonicalForm : Prop where
  idempotent : ∀ report, canonicalizeReport digest (canonicalizeReport digest report) =
    canonicalizeReport digest report
  identity : ∀ (report : CanonicalReportV1) identity,
    reportContentHash digest { report with identity := identity } =
      reportContentHash digest report
  recorded : ∀ report, (canonicalizeReport digest report).identity.contentHash =
    reportContentHash digest (canonicalizeReport digest report)
  permutation : ∀ (report : CanonicalReportV1) claims findings deltas,
    claims.Perm report.claims → findings.Perm report.negativeEvidence →
      deltas.Perm report.fieldDeltas → (report.claims.map ReportClaim.id).Nodup →
        (report.negativeEvidence.map NegativeEvidence.id).Nodup →
          (report.fieldDeltas.map FieldDelta.field).Nodup →
            canonicalizeReport digest { report with
              claims := claims, negativeEvidence := findings, fieldDeltas := deltas } =
                canonicalizeReport digest report
  keyOrder : ∀ value other, Reordered value other →
    stableJsonHash digest value = stableJsonHash digest other

theorem canonicalForm : CanonicalForm digest where
  idempotent := canonicalizeReport_idempotent digest
  identity := reportContentHash_identity digest
  recorded _ := rfl
  permutation _ _ _ _ hclaims hfindings hdeltas hclaimIds hfindingIds hfields := by
    simp only [canonicalizeReport_eq,
      sortedReport_eq_of_perm hclaims hfindings hdeltas hclaimIds hfindingIds hfields]
  keyOrder _ _ h := congrArg digest (normalizeJson_eq_of_reordered h)

/-- Two findings that change places. -/
theorem canonicalForm_two_findings :
    let finding : String → NegativeEvidence := fun id =>
      ⟨id, .unknownNotChecked, [], "error", "1h", .internal⟩
    let report : List NegativeEvidence → CanonicalReportV1 := fun findings =>
      ⟨"", ⟨"", ""⟩, "now", "doctor", [], findings, []⟩
    canonicalizeReport (fun _ => "0123456789abcdef") (report [finding "b", finding "a"]) =
      canonicalizeReport (fun _ => "0123456789abcdef") (report [finding "a", finding "b"]) := by
  intro finding report
  exact (canonicalForm _).permutation (report [finding "a", finding "b"]) []
    [finding "b", finding "a"] [] (.refl _) (.swap _ _ _) (.refl _) (by decide) (by decide)
    (by decide)

end Report

end DbClinic.Runtime
