import DbClinic.Runtime.JsonRoundTrip
import DbClinic.Runtime.Session

/-!
The two persisted encodings of a session read back: the parts of a session,
the JSON object and the records of the JSONL file. Numbers fit the types of the
source and the 64-bit range of a JSON number.
-/

namespace DbClinic.Runtime

open List

structure TokenUsage.Fits (usage : TokenUsage) : Prop where
  inputTokens : usage.inputTokens < 2 ^ 32
  outputTokens : usage.outputTokens < 2 ^ 32
  cacheCreationInputTokens : usage.cacheCreationInputTokens < 2 ^ 32
  cacheReadInputTokens : usage.cacheReadInputTokens < 2 ^ 32

def ConversationMessage.Fits (message : ConversationMessage) : Prop :=
  ∀ usage ∈ message.usage, usage.Fits

theorem ConversationMessage.userText_fits (text : String) :
    (ConversationMessage.userText text).Fits := by
  rintro usage ⟨⟩

structure SessionCompaction.Fits (compaction : SessionCompaction) : Prop where
  count : compaction.count < 2 ^ 32
  removedMessageCount : compaction.removedMessageCount < 2 ^ 63

def SessionPromptEntry.Fits (entry : SessionPromptEntry) : Prop := entry.timestampMs < 2 ^ 63

structure Session.Fits (session : Session) : Prop where
  version : session.version < 2 ^ 32
  createdAtMs : session.createdAtMs < 2 ^ 63
  updatedAtMs : session.updatedAtMs < 2 ^ 63
  messages : ∀ message ∈ session.messages, message.Fits
  compaction : ∀ compaction ∈ session.compaction, compaction.Fits
  promptHistory : ∀ entry ∈ session.promptHistory, entry.Fits

variable {α : Type} {message : ConversationMessage} {encode : α → JsonValue} {usage : TokenUsage}
variable {compaction : SessionCompaction}

@[simp] theorem ok_bind {ε β : Type} (value : α) (next : α → Except ε β) :
    ((.ok value : Except ε α) >>= next) = next value := rfl

@[simp] theorem objectOr_object (object : List (String × JsonValue)) (message : String) :
    objectOr (.object object) message = .ok object := rfl

section Readers

variable {object : List (String × JsonValue)} {key : String}

theorem requiredString_of {v : String} (h : getEntry object key = some (.string v)) :
    requiredString object key = .ok v := by
  unfold requiredString
  rw [h]
  rfl

theorem optionalString_of {v : Option String}
    (h : getEntry object key = v.map .string) : optionalString object key = v := by
  unfold optionalString
  rw [h]
  cases v <;> rfl

variable {value : Nat}

theorem requiredBelow_of {bits : Nat} (h : getEntry object key = some (.number value))
    (hval : value < 2 ^ bits) : requiredBelow object key bits = .ok value := by
  unfold requiredBelow
  rw [h]
  have hrange : 0 ≤ (value : Int) ∧ (value : Int) < 2 ^ bits :=
    ⟨Int.natCast_nonneg value, by exact_mod_cast hval⟩
  simp only [Option.bind_some, JsonValue.asI64]
  rw [if_pos hrange]
  rfl

theorem requiredU32_of (h : getEntry object key = some (.number value)) (hval : value < 2 ^ 32) :
    requiredU32 object key = .ok value := requiredBelow_of h hval

theorem requiredU64_of (h : getEntry object key = some (.number value)) (hval : value < 2 ^ 63) :
    requiredU64 object key = .ok value :=
  requiredBelow_of h (Nat.lt_trans hval (by decide))

theorem optionalWith_of {decode : JsonValue → Except SessionError α} {v : Option α}
    (h : getEntry object key = v.map encode)
    (hdecode : ∀ value ∈ v, decode (encode value) = .ok value) :
    optionalWith object key decode = .ok v := by
  unfold optionalWith
  rw [h]
  cases v with
  | none => rfl
  | some value =>
    rw [Option.map_some]
    dsimp only
    rw [hdecode value rfl]
    rfl

end Readers

@[simp] theorem getEntry_strEntry (k value : String) (rest : List (String × JsonValue))
    (key : String) : getEntry (strEntry k value :: rest) key =
      if k = key then some (.string value) else getEntry rest key :=
  getEntry_cons k _ rest key

@[simp] theorem reverse_optEntry (key : String) (encode : α → JsonValue) (value : Option α) :
    (optEntry key encode value).reverse = optEntry key encode value := by
  cases value <;> rfl

@[simp] theorem getEntry_optEntry (k : String) (encode : α → JsonValue) (value : Option α)
    (key : String) : getEntry (optEntry k encode value) key =
      if k = key then value.map encode else none := by
  cases value with
  | none => simp [optEntry]
  | some v => simp [optEntry]

theorem mapM_decode {decode : JsonValue → Except SessionError α} {values : List α}
    (h : ∀ v ∈ values, decode (encode v) = .ok v) :
    (values.map encode).mapM decode = .ok values := by
  induction values with
  | nil => rfl
  | cons v rest ih =>
    rw [map_cons, mapM_cons, h v mem_cons_self,
      ih fun w hw => h w (mem_cons_of_mem _ hw)]
    rfl

theorem usageFromJson_toJson (h : usage.Fits) :
    usageFromJson (usageToJson usage) = .ok usage := by
  unfold usageFromJson usageToJson
  rw [objectOr_object, ok_bind,
    requiredU32_of (by simp [getEntry_entriesOf]) h.inputTokens, ok_bind,
    requiredU32_of (by simp [getEntry_entriesOf]) h.outputTokens, ok_bind,
    requiredU32_of (by simp [getEntry_entriesOf]) h.cacheCreationInputTokens, ok_bind,
    requiredU32_of (by simp [getEntry_entriesOf]) h.cacheReadInputTokens, ok_bind]
  rfl

theorem ContentBlock.fromJson_toJson (block : ContentBlock) :
    ContentBlock.fromJson block.toJson = .ok block := by
  cases block with
  | text t =>
    unfold ContentBlock.fromJson ContentBlock.toJson
    rw [objectOr_object, ok_bind,
      optionalString_of (v := some "text") (by simp [getEntry_entriesOf])]
    dsimp only
    rw [if_pos rfl, requiredString_of (v := t) (by simp [getEntry_entriesOf])]
    rfl
  | thinking t signature =>
    unfold ContentBlock.fromJson ContentBlock.toJson
    rw [objectOr_object, ok_bind,
      optionalString_of (v := some "thinking") (by simp [getEntry_entriesOf])]
    dsimp only
    rw [if_neg (by decide), if_pos rfl,
      requiredString_of (v := t) (by simp [getEntry_entriesOf]),
      optionalString_of (v := signature) (by simp [getEntry_entriesOf])]
    rfl
  | toolUse id name input =>
    unfold ContentBlock.fromJson ContentBlock.toJson
    rw [objectOr_object, ok_bind,
      optionalString_of (v := some "tool_use") (by simp [getEntry_entriesOf])]
    dsimp only
    rw [if_neg (by decide), if_neg (by decide), if_pos rfl,
      requiredString_of (v := id) (by simp [getEntry_entriesOf]),
      requiredString_of (v := name) (by simp [getEntry_entriesOf]),
      requiredString_of (v := input) (by simp [getEntry_entriesOf])]
    rfl
  | toolResult toolUseId toolName output isError =>
    unfold ContentBlock.fromJson ContentBlock.toJson
    have herror : (getEntry (entriesOf [strEntry "type" "tool_result",
        strEntry "tool_use_id" toolUseId, strEntry "tool_name" toolName,
        strEntry "output" output, ("is_error", JsonValue.bool isError)]) "is_error").bind
          JsonValue.asBool = some isError := by
      simp [getEntry_entriesOf, JsonValue.asBool]
    rw [objectOr_object, ok_bind,
      optionalString_of (v := some "tool_result") (by simp [getEntry_entriesOf])]
    dsimp only
    rw [if_neg (by decide), if_neg (by decide), if_neg (by decide), if_pos rfl,
      requiredString_of (v := toolUseId) (by simp [getEntry_entriesOf]), ok_bind,
      requiredString_of (v := toolName) (by simp [getEntry_entriesOf]), ok_bind,
      requiredString_of (v := output) (by simp [getEntry_entriesOf]), ok_bind, herror]
    rfl

theorem MessageRole.parse_render (role : MessageRole) :
    MessageRole.parse role.render = .ok role := by
  cases role <;> rfl

theorem ConversationMessage.fromJson_toJson (h : message.Fits) :
    ConversationMessage.fromJson message.toJson = .ok message := by
  unfold ConversationMessage.fromJson ConversationMessage.toJson
  have hblocks : (getEntry (entriesOf ([strEntry "role" message.role.render,
      ("blocks", JsonValue.array (message.blocks.map ContentBlock.toJson))] ++
        optEntry "usage" usageToJson message.usage)) "blocks").bind JsonValue.asArray =
      some (message.blocks.map ContentBlock.toJson) := by
    simp [getEntry_entriesOf, JsonValue.asArray]
  rw [objectOr_object, ok_bind,
    requiredString_of (v := message.role.render) (by simp [getEntry_entriesOf]), ok_bind,
    MessageRole.parse_render, ok_bind, hblocks]
  dsimp only
  rw [mapM_decode fun block _ => ContentBlock.fromJson_toJson block, ok_bind,
    optionalWith_of (by simp [getEntry_entriesOf])
      fun usage hu => usageFromJson_toJson (h usage hu)]
  rfl

def SessionCompaction.fields (compaction : SessionCompaction) : List (String × JsonValue) :=
  [("count", .number compaction.count),
    ("removed_message_count", .number compaction.removedMessageCount),
    strEntry "summary" compaction.summary]

theorem SessionCompaction.entries_of_fits (h : compaction.Fits) :
    compaction.entries = .ok compaction.fields := by
  unfold SessionCompaction.entries i64FromNat
  rw [if_pos h.removedMessageCount]
  rfl

theorem SessionCompaction.fromJson_fields (h : compaction.Fits) (before : List (String × JsonValue)) :
    SessionCompaction.fromJson (.object (entriesOf (before ++ compaction.fields))) =
      .ok compaction := by
  have hfield (key : String) : getEntry (entriesOf (before ++ compaction.fields)) key =
      getEntry (compaction.fields.reverse ++ before.reverse) key := by
    rw [getEntry_entriesOf, reverse_append]
  have hremoved : requiredUsize (entriesOf (before ++ compaction.fields))
      "removed_message_count" = .ok compaction.removedMessageCount :=
    requiredU64_of ((hfield _).trans (by simp [fields])) h.removedMessageCount
  unfold SessionCompaction.fromJson
  rw [objectOr_object, ok_bind,
    requiredU32_of ((hfield _).trans (by simp [fields])) h.count, ok_bind, hremoved, ok_bind,
    requiredString_of (v := compaction.summary) ((hfield _).trans (by simp [fields]))]
  rfl

theorem SessionFork.fromJson_toJson (fork : SessionFork) :
    SessionFork.fromJson fork.toJson = .ok fork := by
  unfold SessionFork.fromJson SessionFork.toJson
  rw [objectOr_object, ok_bind,
    requiredString_of (v := fork.parentSessionId) (by simp [getEntry_entriesOf]), ok_bind,
    optionalString_of (v := fork.branchName) (by simp [getEntry_entriesOf])]
  rfl

theorem SessionPromptEntry.fromJsonOpt_toJsonlRecord {entry : SessionPromptEntry}
    (h : entry.Fits) : SessionPromptEntry.fromJsonOpt entry.toJsonlRecord = some entry := by
  have hmin : min (entry.timestampMs : Int) (2 ^ 63 - 1) = entry.timestampMs := by
    unfold SessionPromptEntry.Fits at h
    omega
  unfold SessionPromptEntry.fromJsonOpt SessionPromptEntry.toJsonlRecord
  rw [hmin]
  simp [getEntry_entriesOf, JsonValue.asObject, JsonValue.asI64, optionalString, JsonValue.asStr]

theorem storable_number {value : Nat} (h : value < 2 ^ 63) :
    (JsonValue.number value).Storable := by
  unfold JsonValue.Storable Parser.InI64
  omega

theorem storable_string (value : String) : (JsonValue.string value).Storable := by
  unfold JsonValue.Storable
  trivial

theorem storable_bool (value : Bool) : (JsonValue.bool value).Storable := by
  unfold JsonValue.Storable
  trivial

def StorableFields (entries : List (String × JsonValue)) : Prop :=
  ∀ e ∈ entries, e.2.Storable

@[simp] theorem storableFields_nil : StorableFields [] := forall_mem_nil _

@[simp] theorem storableFields_cons (e : String × JsonValue) (entries : List (String × JsonValue)) :
    StorableFields (e :: entries) ↔ e.2.Storable ∧ StorableFields entries := forall_mem_cons

@[simp] theorem storableFields_append (entries rest : List (String × JsonValue)) :
    StorableFields (entries ++ rest) ↔ StorableFields entries ∧ StorableFields rest :=
  forall_mem_append

theorem storableFields_optEntry {key : String} {value : Option α}
    (h : ∀ v ∈ value, (encode v).Storable) :
    StorableFields (optEntry key encode value) := by
  cases value with
  | none => exact storableFields_nil
  | some v => exact (storableFields_cons _ _).mpr ⟨h v rfl, storableFields_nil⟩

theorem storable_object {entries : List (String × JsonValue)} (h : StorableFields entries) :
    (JsonValue.object (entriesOf entries)).Storable := JsonValue.storable_entriesOf h

theorem TokenUsage.Fits.storable (h : usage.Fits) :
    (usageToJson usage).Storable := by
  have hbound {n : Nat} (hn : n < 2 ^ 32) : (JsonValue.number n).Storable :=
    storable_number (Nat.lt_trans hn (by decide))
  refine storable_object ?_
  simp only [storableFields_cons, storableFields_nil, and_true]
  exact ⟨hbound h.inputTokens, hbound h.outputTokens, hbound h.cacheCreationInputTokens,
    hbound h.cacheReadInputTokens⟩

theorem ContentBlock.storable (block : ContentBlock) : block.toJson.Storable := by
  have hsignature (signature : Option String) :
      StorableFields (optEntry "signature" .string signature) :=
    storableFields_optEntry fun _ _ => storable_string _
  cases block <;> refine storable_object ?_ <;>
    simp [strEntry, storable_string, storable_bool, hsignature]

theorem ConversationMessage.Fits.storable (h : message.Fits) :
    message.toJson.Storable := by
  have husage : StorableFields (optEntry "usage" usageToJson message.usage) :=
    storableFields_optEntry fun usage hu => (h usage hu).storable
  have hblocks : (JsonValue.array (message.blocks.map ContentBlock.toJson)).Storable := by
    refine JsonValue.storable_array fun v hv => ?_
    obtain ⟨block, -, rfl⟩ := mem_map.mp hv
    exact block.storable
  refine storable_object ?_
  simp [strEntry, storable_string, hblocks, husage]

theorem SessionFork.storable (fork : SessionFork) : fork.toJson.Storable := by
  have hbranch : StorableFields (optEntry "branch_name" .string fork.branchName) :=
    storableFields_optEntry fun _ _ => storable_string _
  refine storable_object ?_
  simp [strEntry, storable_string, hbranch]

theorem messageRecord_storable (h : message.Fits) :
    (messageRecord message).Storable := by
  refine storable_object ?_
  simp [strEntry, storable_string, h.storable]

theorem SessionPromptEntry.storable (entry : SessionPromptEntry) :
    entry.toJsonlRecord.Storable := by
  have hmin : (JsonValue.number (min (entry.timestampMs : Int) (2 ^ 63 - 1))).Storable := by
    unfold JsonValue.Storable Parser.InI64
    omega
  refine storable_object ?_
  simp only [strEntry, storableFields_cons, storableFields_nil, and_true]
  exact ⟨storable_string _, hmin, storable_string _⟩

end DbClinic.Runtime
