import DbClinic.Runtime.Snapshot

/-!
What the two encodings of a session keep. The JSONL file keeps every field but
the last health check, which nothing writes. The JSON object is read with a
model, as the JSONL header is, but is written without one.
-/

namespace DbClinic.Runtime

open List

namespace Session

def historyField (entries : List SessionPromptEntry) : List (String × JsonValue) :=
  if entries = [] then []
  else [("prompt_history", .array (entries.map SessionPromptEntry.toJsonlRecord))]

def jsonFields (session : Session) (compaction : Option JsonValue) :
    List (String × JsonValue) :=
  [("version", .number session.version), strEntry "session_id" session.sessionId,
    ("created_at_ms", .number session.createdAtMs), ("updated_at_ms", .number session.updatedAtMs),
    ("messages", .array (session.messages.map ConversationMessage.toJson))] ++
    optEntry "compaction" id compaction ++ optEntry "fork" SessionFork.toJson session.fork ++
    optEntry "workspace_root" .string session.workspaceRoot ++ historyField session.promptHistory

theorem toJson_compaction {compaction : Option SessionCompaction}
    (h : ∀ c ∈ compaction, c.Fits) : ∃ value : Option JsonValue,
      compaction.mapM SessionCompaction.toJson = .ok value ∧
        ∀ object : List (String × JsonValue), getEntry object "compaction" = value →
          optionalWith object "compaction" SessionCompaction.fromJson = .ok compaction := by
  cases compaction with
  | none =>
    refine ⟨none, rfl, fun object hobject => ?_⟩
    unfold optionalWith
    rw [hobject]
  | some c =>
    have hval : c.toJson = .ok (.object (entriesOf ([] ++ c.fields))) := by
      unfold SessionCompaction.toJson
      rw [SessionCompaction.entries_of_fits (h c rfl)]
      rfl
    refine ⟨some (.object (entriesOf ([] ++ c.fields))), ?_, fun object hobject => ?_⟩
    · rw [Option.mapM_some, hval]
      rfl
    · unfold optionalWith
      rw [hobject]
      dsimp only
      rw [SessionCompaction.fromJson_fields (h c rfl)]
      rfl

variable {key : String} {session : Session} {object : List (String × JsonValue)}
variable {entries : List SessionPromptEntry}

theorem optionalTimestamp_of {n : Nat} (h : getEntry object key = some (.number n))
    (hn : n < 2 ^ 63) :
    optionalWith object key (requiredU64FromValue · key) = .ok (some n) := by
  have hrange : 0 ≤ (n : Int) ∧ (n : Int) < 2 ^ 64 := by omega
  unfold optionalWith
  rw [h]
  dsimp only [requiredU64FromValue, JsonValue.asI64]
  rw [if_pos hrange]
  rfl

theorem promptHistory_of (hfits : ∀ entry ∈ entries, entry.Fits)
    (h : getEntry object "prompt_history" = getEntry (historyField entries) "prompt_history") :
    (((getEntry object "prompt_history").bind JsonValue.asArray).getD []).filterMap
      SessionPromptEntry.fromJsonOpt = entries := by
  rw [h]
  unfold historyField
  split
  · rename_i hnil
    subst hnil
    rfl
  · simp only [getEntry_cons, if_true, Option.bind_some, JsonValue.asArray, Option.getD_some]
    rw [filterMap_map]
    have hall : entries.filterMap (SessionPromptEntry.fromJsonOpt ∘
        SessionPromptEntry.toJsonlRecord) = entries.filterMap some := by
      refine filterMap_congr fun entry hentry => ?_
      exact SessionPromptEntry.fromJsonOpt_toJsonlRecord (hfits entry hentry)
    rw [hall, filterMap_some]

theorem reverse_historyField (entries : List SessionPromptEntry) :
    (historyField entries).reverse = historyField entries := by
  unfold historyField
  split <;> rfl

theorem getEntry_historyField (h : key ≠ "prompt_history") :
    getEntry (historyField entries) key = none := by
  unfold historyField
  split
  · rfl
  · simp [Ne.symm h]

theorem getEntry_jsonFields (session : Session) (compaction : Option JsonValue)
    (h : key ≠ "prompt_history") :
    getEntry (entriesOf (session.jsonFields compaction)) key =
      getEntry (optEntry "workspace_root" .string session.workspaceRoot ++
        (optEntry "fork" SessionFork.toJson session.fork ++
        (optEntry "compaction" id compaction ++
        [("messages", .array (session.messages.map ConversationMessage.toJson)),
          ("updated_at_ms", .number session.updatedAtMs),
          ("created_at_ms", .number session.createdAtMs),
          strEntry "session_id" session.sessionId, ("version", .number session.version)])))
        key := by
  rw [getEntry_entriesOf]
  unfold jsonFields
  rw [reverse_append, reverse_historyField, getEntry_append, getEntry_historyField h,
    Option.none_or]
  simp

theorem toJson_eq (h : session.Fits) {compaction : Option JsonValue}
    (hmap : session.compaction.mapM SessionCompaction.toJson = .ok compaction) :
    session.toJson = .ok (.object (entriesOf (session.jsonFields compaction))) := by
  unfold toJson i64FromNat
  rw [if_pos h.createdAtMs, ok_bind, if_pos h.updatedAtMs, ok_bind, hmap]
  rfl

/-- What `to_json` writes is read back without the model. -/
theorem fromJson_toJson (h : session.Fits) {value : JsonValue} (hval : session.toJson = .ok value)
    (now : Nat) (stamp : Stamp) :
    Session.fromJson value now stamp = .ok { session.persisted with model := none } := by
  obtain ⟨compaction, hmap, hcompaction⟩ := toJson_compaction h.compaction
  rw [toJson_eq h hmap] at hval
  cases hval
  have hfield {key : String} (hkey : key ≠ "prompt_history") :=
    getEntry_jsonFields session compaction hkey
  have hhistory : getEntry (entriesOf (session.jsonFields compaction)) "prompt_history" =
      getEntry (historyField session.promptHistory) "prompt_history" := by
    rw [getEntry_entriesOf]
    unfold jsonFields
    rw [reverse_append, reverse_historyField, getEntry_append]
    simp
  generalize entriesOf (session.jsonFields compaction) = object at hfield hhistory ⊢
  have hversion : (getEntry object "version").bind JsonValue.asI64 =
      some (session.version : Int) := by
    rw [hfield (by decide)]
    simp [JsonValue.asI64]
  have hrange : 0 ≤ (session.version : Int) ∧ (session.version : Int) < 2 ^ 32 := by
    have := h.version
    omega
  have hmsgs : (getEntry object "messages").bind JsonValue.asArray =
      some (session.messages.map ConversationMessage.toJson) := by
    rw [hfield (by decide)]
    simp [JsonValue.asArray]
  have hdecode := mapM_decode fun message hmsg =>
    ConversationMessage.fromJson_toJson (h.messages message hmsg)
  unfold Session.fromJson
  rw [objectOr_object, ok_bind]
  dsimp only
  rw [hversion]
  dsimp only
  rw [if_pos hrange, hmsgs]
  dsimp only
  rw [hdecode]
  rw [optionalString_of (v := some session.sessionId) ((hfield (by decide)).trans (by simp)),
    optionalTimestamp_of ((hfield (by decide)).trans (by simp)) h.createdAtMs,
    optionalTimestamp_of ((hfield (by decide)).trans (by simp)) h.updatedAtMs,
    hcompaction object ((hfield (by decide)).trans (by simp)),
    optionalWith_of (v := session.fork) ((hfield (by decide)).trans (by simp))
      fun fork _ => fork.fromJson_toJson,
    promptHistory_of h.promptHistory hhistory,
    optionalString_of (v := session.workspaceRoot) ((hfield (by decide)).trans (by simp)),
    optionalString_of (v := none) ((hfield (by decide)).trans (by simp))]
  rfl

/-- Reading a snapshot back gives the session without its last health check,
which the file does not hold: in the sense of `eq` it is the same session
exactly when there was none. -/
theorem snapshot_round_trip {session : Session} (h : session.Fits) (now : Nat) (stamp : Stamp) :
    ∃ snapshot result, session.renderJsonlSnapshot = .ok snapshot ∧
      fromJsonl snapshot now stamp = .ok result ∧
      result.eq { session with lastHealthCheckMs := none } ∧ result.model = session.model ∧
      (result.eq session ↔ session.lastHealthCheckMs = none) := by
  obtain ⟨snapshot, hsnap, hread⟩ := fromJsonl_snapshot h
  refine ⟨snapshot, _, hsnap, hread now stamp, ?_, rfl, ?_⟩
  · exact ⟨rfl, rfl, rfl, rfl, rfl, rfl, rfl, rfl, rfl, rfl⟩
  · constructor
    · rintro ⟨-, -, -, -, -, -, -, -, -, hcheck⟩
      exact hcheck.symm
    · intro hcheck
      exact ⟨rfl, rfl, rfl, rfl, rfl, rfl, rfl, rfl, rfl, hcheck.symm⟩

def annotated : Session :=
  { Session.new 5 ⟨5, 0⟩ with
    messages := [.userText "one\n\"two\" \\ \x07 é"]
    compaction := some ⟨1, 2, "summary"⟩
    fork := some ⟨"session-1-0", some "try"⟩
    workspaceRoot := some "/work"
    promptHistory := [⟨4, "one\ntwo"⟩]
    model := some "large" }

theorem annotated_fits : annotated.Fits where
  version := by decide
  createdAtMs := by decide
  updatedAtMs := by decide
  messages := by
    intro message hmsg
    rw [mem_singleton.mp hmsg]
    exact ConversationMessage.userText_fits _
  compaction := by
    rintro compaction ⟨⟩
    exact ⟨by decide, by decide⟩
  promptHistory := by
    intro entry hentry
    rw [mem_singleton.mp hentry]
    show 4 < 2 ^ 63
    decide

theorem snapshot_round_trip_annotated : ∃ snapshot result,
    annotated.renderJsonlSnapshot = .ok snapshot ∧ fromJsonl snapshot 9 ⟨9, 1⟩ = .ok result ∧
      result.eq { annotated with lastHealthCheckMs := none } ∧ result.model = annotated.model ∧
      (result.eq annotated ↔ annotated.lastHealthCheckMs = none) :=
  snapshot_round_trip annotated_fits 9 ⟨9, 1⟩

def checked : Session := { annotated with lastHealthCheckMs := some 7 }

theorem checked_fits : checked.Fits :=
  ⟨annotated_fits.version, annotated_fits.createdAtMs, annotated_fits.updatedAtMs,
    annotated_fits.messages, annotated_fits.compaction, annotated_fits.promptHistory⟩

theorem snapshot_forgets_health_check :
    checked.Fits ∧ ∃ snapshot result, checked.renderJsonlSnapshot = .ok snapshot ∧
      fromJsonl snapshot 9 ⟨9, 1⟩ = .ok result ∧ ¬ result.eq checked := by
  obtain ⟨snapshot, hsnap, hread⟩ := fromJsonl_snapshot checked_fits
  refine ⟨checked_fits, snapshot, _, hsnap, hread 9 ⟨9, 1⟩, ?_⟩
  rintro ⟨-, -, -, -, -, -, -, -, -, hcheck⟩
  cases hcheck

/-- The fields the JSONL codec keeps. -/
def SameFields (session other : Session) : Prop :=
  session.version = other.version ∧ session.sessionId = other.sessionId ∧
    session.createdAtMs = other.createdAtMs ∧ session.updatedAtMs = other.updatedAtMs ∧
    session.messages = other.messages ∧ session.compaction = other.compaction ∧
    session.fork = other.fork ∧ session.workspaceRoot = other.workspaceRoot ∧
    session.promptHistory = other.promptHistory ∧ session.model = other.model

/-- The JSON object of a session holds what its JSONL file holds exactly when
the session has no model. -/
theorem toJson_keeps_fields_iff {session : Session} (h : session.Fits) {value : JsonValue}
    (hval : session.toJson = .ok value) (now : Nat) (stamp : Stamp) :
    (∃ result, fromJson value now stamp = .ok result ∧ result.SameFields session ∧
      ∃ snapshot, session.renderJsonlSnapshot = .ok snapshot ∧
        fromJsonl snapshot now stamp = .ok result) ↔ session.model = none := by
  obtain ⟨snapshot, hsnap, hread⟩ := fromJsonl_snapshot h
  have hobject := fromJson_toJson h hval now stamp
  constructor
  · rintro ⟨result, hres, ⟨-, -, -, -, -, -, -, -, -, hmodel⟩, -⟩
    rw [hobject] at hres
    cases hres
    exact hmodel.symm
  · intro hmodel
    have hsame : ({ session.persisted with model := none } : Session) = session.persisted := by
      rw [← hmodel]
      rfl
    refine ⟨_, hobject, ⟨rfl, rfl, rfl, rfl, rfl, rfl, rfl, rfl, rfl, hmodel.symm⟩, snapshot,
      hsnap, ?_⟩
    rw [hsame]
    exact hread now stamp

theorem toJson_ok (h : session.Fits) :
    ∃ value, session.toJson = .ok value := by
  obtain ⟨compaction, hmap, -⟩ := toJson_compaction h.compaction
  exact ⟨_, toJson_eq h hmap⟩

theorem toJson_keeps_fields_annotated : ∃ value, annotated.toJson = .ok value ∧
    ((∃ result, fromJson value 9 ⟨9, 1⟩ = .ok result ∧ result.SameFields annotated ∧
      ∃ snapshot, annotated.renderJsonlSnapshot = .ok snapshot ∧
        fromJsonl snapshot 9 ⟨9, 1⟩ = .ok result) ↔ annotated.model = none) := by
  obtain ⟨value, hval⟩ := toJson_ok annotated_fits
  exact ⟨value, hval, toJson_keeps_fields_iff annotated_fits hval 9 ⟨9, 1⟩⟩

theorem toJson_forgets_model :
    annotated.Fits ∧ ∃ value result, annotated.toJson = .ok value ∧
      fromJson value 9 ⟨9, 1⟩ = .ok result ∧ ¬ result.SameFields annotated := by
  obtain ⟨value, hval⟩ := toJson_ok annotated_fits
  refine ⟨annotated_fits, value, _, hval, fromJson_toJson annotated_fits hval 9 ⟨9, 1⟩, ?_⟩
  rintro ⟨-, -, -, -, -, -, -, -, -, hmodel⟩
  cases hmodel

end Session

end DbClinic.Runtime
