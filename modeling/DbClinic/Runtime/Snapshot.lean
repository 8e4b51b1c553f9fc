import DbClinic.Runtime.SessionRoundTrip

/-!
The lines of a session file, one record each, and what reading them gives. A
rendered record neither starts nor ends with whitespace and has no line break,
so the lines of rendered records are the rendered records.
-/

namespace DbClinic.Runtime

open List

theorem isWhitespace_brace : isWhitespace '\x7b' = false ∧ isWhitespace '\x7d' = false := by
  decide

theorem trim_object (entries : List (String × JsonValue)) :
    trim (JsonValue.object entries).render = (JsonValue.object entries).render := by
  have hrender : (JsonValue.object entries).render =
      '\x7b' :: (JsonValue.renderEntries entries ++ ['\x7d']) := rfl
  have hreverse : ('\x7b' :: (JsonValue.renderEntries entries ++ ['\x7d'])).reverse =
      '\x7d' :: ('\x7b' :: JsonValue.renderEntries entries).reverse := by simp
  unfold trim
  rw [hrender, dropWhile_cons_of_neg (by simp [isWhitespace_brace.1]), hreverse,
    dropWhile_cons_of_neg (by simp [isWhitespace_brace.2]), ← hreverse, reverse_reverse]

theorem render_ne_newline (value : JsonValue) : ∀ c ∈ value.render, (c = '\n') = False := by
  intro c hc
  refine eq_false fun heq => ?_
  subst heq
  have hprintable := JsonValue.render_printable value '\n' hc
  cases hprintable

theorem splitOnP_renderLines (values : List JsonValue) :
    (Session.renderLines values).splitOnP (· = '\n') = values.map JsonValue.render ++ [[]] := by
  induction values with
  | nil => rfl
  | cons value rest ih =>
    have hcons : Session.renderLines (value :: rest) =
        value.render ++ '\n' :: Session.renderLines rest := by
      simp [Session.renderLines]
    rw [hcons, splitOnP_append_cons_of_forall_mem
      (fun c hc => by simp [render_ne_newline value c hc]) _ (by simp), ih]
    rfl

theorem lines_renderLines (values : List JsonValue) :
    lines (Session.renderLines values) = values.map JsonValue.render := by
  unfold lines splitLines
  rw [splitOnP_renderLines]
  simp

namespace Session

theorem decodeLines_append (number : Nat) (before after : List (List Char)) (d : Decoded) :
    decodeLines number (before ++ after) d =
      decodeLines number before d >>= decodeLines (number + before.length) after := by
  induction before generalizing number d with
  | nil => rfl
  | cons line rest ih =>
    rw [cons_append, decodeLines, decodeLines]
    split
    · rw [ih, length_cons, Nat.add_assoc, Nat.add_comm 1]
    · cases hrecord : decodeRecord number (trim line) d with
      | error e => rfl
      | ok d' =>
        dsimp only
        rw [ih, length_cons, Nat.add_assoc, Nat.add_comm 1]

/-- Reading one record, on a line of its own, does one thing to what was read
before. -/
def Reads (value : JsonValue) (effect : Decoded → Decoded) : Prop :=
  ∀ number d, decodeLines number [value.render] d = .ok (effect d)

theorem decodeLines_reads {α : Type} {encode : α → JsonValue} {effect : α → Decoded → Decoded}
    {values : List α} (h : ∀ v ∈ values, Reads (encode v) (effect v)) (number : Nat)
    (d : Decoded) : decodeLines number ((values.map encode).map JsonValue.render) d =
      .ok (values.foldl (fun d v => effect v d) d) := by
  induction values generalizing number d with
  | nil => rfl
  | cons v rest ih =>
    have hsplit : ((v :: rest).map encode).map JsonValue.render =
        [(encode v).render] ++ (rest.map encode).map JsonValue.render := rfl
    rw [hsplit, decodeLines_append, h v mem_cons_self, ok_bind,
      ih fun w hw => h w (mem_cons_of_mem _ hw)]
    rfl

theorem reads_object {entries : List (String × JsonValue)} {effect : Decoded → Decoded}
    (h : ∀ number d,
      decodeRecord number (JsonValue.object entries).render d = .ok (effect d)) :
    Reads (.object entries) effect := by
  intro number d
  have hline : (JsonValue.object entries).render ≠ [] := cons_ne_nil _ _
  rw [decodeLines, trim_object, if_neg hline, h]
  rfl

theorem reads_message {message : ConversationMessage} (h : message.Fits) :
    Reads (messageRecord message) fun d => { d with messages := d.messages ++ [message] } := by
  refine reads_object fun number d => ?_
  have hval : getEntry (entriesOf [strEntry "type" "message", ("message", message.toJson)])
      "message" = some message.toJson := by
    simp [getEntry_entriesOf]
  have hparse := JsonValue.parse_render (messageRecord_storable h)
  unfold messageRecord at hparse
  unfold decodeRecord
  rw [hparse]
  dsimp only [JsonValue.asObject]
  rw [optionalString_of (v := some "message") (by simp [getEntry_entriesOf])]
  dsimp only
  rw [if_neg (by decide), if_pos rfl, hval]
  dsimp only
  rw [ConversationMessage.fromJson_toJson h]
  rfl

theorem reads_prompt {entry : SessionPromptEntry} (h : entry.Fits) :
    Reads entry.toJsonlRecord
      fun d => { d with promptHistory := d.promptHistory ++ [entry] } := by
  refine reads_object fun number d => ?_
  have hval := SessionPromptEntry.fromJsonOpt_toJsonlRecord h
  have hparse := JsonValue.parse_render entry.storable
  unfold SessionPromptEntry.toJsonlRecord at hval hparse
  unfold decodeRecord
  rw [hparse]
  dsimp only [JsonValue.asObject]
  rw [optionalString_of (v := some "prompt_history") (by simp [getEntry_entriesOf])]
  dsimp only
  rw [if_neg (by decide), if_neg (by decide), if_neg (by decide), if_pos rfl, hval]

variable {session : Session} {compaction : SessionCompaction}

theorem SessionCompaction.toJsonlRecord_of_fits (h : compaction.Fits) : compaction.toJsonlRecord =
      .ok (.object (entriesOf ([strEntry "type" "compaction"] ++ compaction.fields))) := by
  unfold SessionCompaction.toJsonlRecord
  rw [SessionCompaction.entries_of_fits h]
  rfl

theorem SessionCompaction.storable (h : compaction.Fits) :
    (JsonValue.object
      (entriesOf ([strEntry "type" "compaction"] ++ compaction.fields))).Storable := by
  refine storable_object ?_
  unfold SessionCompaction.fields
  simp only [strEntry, storableFields_append, storableFields_cons, storableFields_nil, and_true]
  exact ⟨storable_string _, storable_number (Nat.lt_trans h.count (by decide)),
    storable_number h.removedMessageCount, storable_string _⟩

theorem reads_compaction (h : compaction.Fits) {value : JsonValue}
    (hval : compaction.toJsonlRecord = .ok value) :
    Reads value fun d => { d with compaction := some compaction } := by
  rw [SessionCompaction.toJsonlRecord_of_fits h] at hval
  cases hval
  refine reads_object fun number d => ?_
  unfold decodeRecord
  rw [JsonValue.parse_render (SessionCompaction.storable h)]
  dsimp only [JsonValue.asObject]
  rw [optionalString_of (v := some "compaction")
    (by simp [getEntry_entriesOf, SessionCompaction.fields])]
  dsimp only
  rw [if_neg (by decide), if_neg (by decide), if_pos rfl, SessionCompaction.fromJson_fields h]
  rfl

/-- The first line of a session file. -/
def headerFields (session : Session) : List (String × JsonValue) :=
  [strEntry "type" "session_meta", ("version", .number session.version),
    strEntry "session_id" session.sessionId, ("created_at_ms", .number session.createdAtMs),
    ("updated_at_ms", .number session.updatedAtMs)] ++
    optEntry "fork" SessionFork.toJson session.fork ++
    optEntry "workspace_root" .string session.workspaceRoot ++
    optEntry "model" .string session.model

theorem metaRecord_eq (hcreated : session.createdAtMs < 2 ^ 63)
    (hupdated : session.updatedAtMs < 2 ^ 63) :
    session.metaRecord = .ok (.object (entriesOf session.headerFields)) := by
  unfold metaRecord i64FromNat
  rw [if_pos hcreated, ok_bind, if_pos hupdated]
  rfl

theorem headerFields_storable (h : session.Fits) :
    StorableFields session.headerFields := by
  have hversion : (JsonValue.number session.version).Storable :=
    storable_number (Nat.lt_trans h.version (by decide))
  unfold headerFields
  simp only [strEntry, storableFields_append, storableFields_cons, storableFields_nil, and_true]
  exact ⟨⟨⟨⟨storable_string _, hversion, storable_string _, storable_number h.createdAtMs,
    storable_number h.updatedAtMs⟩, storableFields_optEntry fun fork _ => fork.storable⟩,
    storableFields_optEntry fun _ _ => storable_string _⟩,
    storableFields_optEntry fun _ _ => storable_string _⟩

theorem reads_header (h : session.Fits) :
    Reads (.object (entriesOf session.headerFields)) fun d => { d with
      version := session.version, sessionId := some session.sessionId
      createdAtMs := some session.createdAtMs, updatedAtMs := some session.updatedAtMs
      fork := session.fork, workspaceRoot := session.workspaceRoot, model := session.model } := by
  refine reads_object fun number d => ?_
  unfold decodeRecord
  rw [JsonValue.parse_render (storable_object (headerFields_storable h))]
  dsimp only [JsonValue.asObject]
  have hfield (key : String) : getEntry (entriesOf session.headerFields) key =
      getEntry session.headerFields.reverse key := getEntry_entriesOf _ _
  have hreverse : session.headerFields.reverse =
      optEntry "model" .string session.model ++
        (optEntry "workspace_root" .string session.workspaceRoot ++
        (optEntry "fork" SessionFork.toJson session.fork ++
        [("updated_at_ms", .number session.updatedAtMs),
          ("created_at_ms", .number session.createdAtMs),
          strEntry "session_id" session.sessionId, ("version", .number session.version),
          strEntry "type" "session_meta"])) := by
    simp [headerFields]
  rw [hreverse] at hfield
  rw [optionalString_of (v := some "session_meta") (by rw [hfield]; simp)]
  dsimp only
  rw [if_pos rfl, requiredU32_of ((hfield _).trans (by simp)) h.version, ok_bind,
    requiredString_of (v := session.sessionId) ((hfield _).trans (by simp)), ok_bind,
    requiredU64_of ((hfield _).trans (by simp)) h.createdAtMs, ok_bind,
    requiredU64_of ((hfield _).trans (by simp)) h.updatedAtMs, ok_bind,
    optionalWith_of (v := session.fork) ((hfield _).trans (by simp))
      fun fork _ => fork.fromJson_toJson, ok_bind,
    optionalString_of (v := session.workspaceRoot) ((hfield _).trans (by simp)),
    optionalString_of (v := session.model) ((hfield _).trans (by simp))]
  rfl

/-- What the lines of a snapshot leave in the decoder: the whole session. -/
def decoded (session : Session) : Decoded where
  version := session.version
  sessionId := some session.sessionId
  createdAtMs := some session.createdAtMs
  updatedAtMs := some session.updatedAtMs
  messages := session.messages
  compaction := session.compaction
  fork := session.fork
  workspaceRoot := session.workspaceRoot
  model := session.model
  promptHistory := session.promptHistory

theorem foldl_prompts (entries : List SessionPromptEntry) (d : Decoded) :
    entries.foldl (fun d entry => { d with promptHistory := d.promptHistory ++ [entry] }) d =
      { d with promptHistory := d.promptHistory ++ entries } := by
  induction entries generalizing d with
  | nil => simp
  | cons entry rest ih => rw [foldl_cons, ih]; simp

theorem foldl_messages (messages : List ConversationMessage) (d : Decoded) :
    messages.foldl (fun d message => { d with messages := d.messages ++ [message] }) d =
      { d with messages := d.messages ++ messages } := by
  induction messages generalizing d with
  | nil => simp
  | cons message rest ih => rw [foldl_cons, ih]; simp

theorem decodeLines_compaction {compaction : Option SessionCompaction}
    (h : ∀ c ∈ compaction, c.Fits) : ∃ values : Option JsonValue,
      compaction.mapM SessionCompaction.toJsonlRecord = .ok values ∧
        ∀ number (d : Decoded), d.compaction = none →
          decodeLines number (values.toList.map JsonValue.render) d =
            .ok { d with compaction } := by
  cases compaction with
  | none =>
    refine ⟨none, rfl, fun number d hd => ?_⟩
    rw [← hd]
    rfl
  | some c =>
    have hrecord := SessionCompaction.toJsonlRecord_of_fits (h c rfl)
    refine ⟨some _, ?_, fun number d _ => reads_compaction (h c rfl) hrecord number d⟩
    rw [Option.mapM_some, hrecord]
    rfl

theorem decodeLines_records (h : session.Fits) :
    ∃ values, session.records = .ok values ∧
      decodeLines 1 (values.map JsonValue.render) .start = .ok session.decoded := by
  obtain ⟨compaction, hmap, hcompaction⟩ := decodeLines_compaction h.compaction
  have hprompts (number : Nat) (d : Decoded) := decodeLines_reads
    (fun entry hentry => reads_prompt (h.promptHistory entry hentry)) number d
  have hmsgs (number : Nat) (d : Decoded) := decodeLines_reads
    (fun message hmsg => reads_message (h.messages message hmsg)) number d
  refine ⟨[.object (entriesOf session.headerFields)] ++ compaction.toList ++
    session.promptHistory.map SessionPromptEntry.toJsonlRecord ++
    session.messages.map messageRecord, ?_, ?_⟩
  · unfold records
    rw [metaRecord_eq h.createdAtMs h.updatedAtMs, ok_bind, hmap]
    rfl
  · rw [map_append, map_append, map_append, decodeLines_append, decodeLines_append,
      decodeLines_append]
    have hheader := reads_header h 1 .start
    rw [map_singleton, hheader, ok_bind, hcompaction _ _ rfl, ok_bind, hprompts, ok_bind,
      hmsgs, foldl_prompts, foldl_messages]
    rfl

/-- The fields a session file holds. -/
def persisted (session : Session) : Session :=
  { session with lastHealthCheckMs := none, persistencePath := none }

theorem fromJsonl_decoded {text : List Char}
    (h : decodeLines 1 (lines text) .start = .ok session.decoded) (now : Nat) (stamp : Stamp) :
    fromJsonl text now stamp = .ok session.persisted := by
  unfold fromJsonl
  rw [h]
  rfl

theorem fromJsonl_snapshot (h : session.Fits) :
    ∃ snapshot, session.renderJsonlSnapshot = .ok snapshot ∧
      ∀ now stamp, fromJsonl snapshot now stamp = .ok session.persisted := by
  obtain ⟨values, hvals, hdecode⟩ := decodeLines_records h
  refine ⟨renderLines values, ?_, fun now stamp => ?_⟩
  · unfold renderJsonlSnapshot
    rw [hvals]
    rfl
  · refine fromJsonl_decoded ?_ now stamp
    rw [lines_renderLines, hdecode]

end Session

end DbClinic.Runtime
