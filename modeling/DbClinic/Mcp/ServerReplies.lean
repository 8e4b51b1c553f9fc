import DbClinic.Mcp.Server
import Mathlib.Data.List.ReduceOption

/-!
What the server owes its client for every payload, and when it gives it. A
message that is no object has no `id` either, and is passed over as if it were a
notification; an `id` is a number only as far as it is a `u64`.
-/

namespace DbClinic.Mcp

open List
open DbClinic.Serde (Value Number)

/-- An object without an `id`. -/
def Notification (message : Value) : Prop :=
  ∃ entries, message = .object entries ∧ message.get "id" = none

/-- A number, a string or `null`. -/
def IsId : Value → Prop
  | .number _ | .string _ | .null => True
  | _ => False

/-- A request with the given `id`. -/
structure ValidRequest (message id : Value) : Prop where
  object : ∃ entries, message = .object entries
  member : message.get "id" = some id
  isId : IsId id
  jsonrpc : ∃ text, message.get "jsonrpc" = some (.string text)
  method : ∃ text, message.get "method" = some (.string text)

structure ErrorReply (code : Int) (response : JsonRpcResponse Value) : Prop where
  result : response.result = none
  error : ∃ error, response.error = some error ∧ error.code = code

def Answers (json : SerdeJson) (payload : List UInt8)
    (reply : Option (JsonRpcResponse Value)) : Prop :=
  (∀ error, json.fromSlice payload = .error error →
    ∃ response, reply = some response ∧ ErrorReply (-32700) response) ∧
  ∀ message, json.fromSlice payload = .ok message →
    (Notification message → reply = none) ∧
    (∀ id, ValidRequest message id → ∃ response, reply = some response ∧
      response.id.toValue = id ∧ (response.result.isSome ↔ response.error.isNone)) ∧
    (¬Notification message → (∀ id, ¬ValidRequest message id) →
      ∃ response, reply = some response ∧ ErrorReply (-32600) response)

/-- Every payload of the input is given what it is owed, in order, and the loop
goes on to the end of the input. -/
def AnswersAll (json : SerdeJson) (spec : McpServerSpec) (stdin : List UInt8)
    (payloads : List (List UInt8)) : Prop :=
  (McpServer.run json spec stdin).2 = .ok () ∧
  ∃ replies, List.Forall₂ (Answers json) payloads replies ∧
    replies.reduceOption.foldlM (McpServer.writeResponse json.toVec) [] =
      .ok (McpServer.run json spec stdin).1

/-- An object, whose `id` is a `u64` if it is a number and all else is right. -/
def Understood (message : Value) : Prop :=
  (∃ entries, message = .object entries) ∧
    ∀ id, ValidRequest message id → (JsonRpcId.ofValue id).isSome

section Written

variable (json : SerdeJson) (spec : McpServerSpec)

def framesOf (replies : List (Option (JsonRpcResponse Value))) : List UInt8 :=
  (replies.reduceOption.map json.body).flatMap encodeFrame

theorem writeResponse_eq (stdout : List UInt8) (response : JsonRpcResponse Value) :
    McpServer.writeResponse json.toVec stdout response =
      .ok (stdout ++ encodeFrame (json.body response)) := by
  have hbody : McpServer.serialize json.toVec response = .ok (json.body response) := by
    rw [McpServer.serialize, json.toVec_eq]
  rw [McpServer.writeResponse, hbody, encodeFrame, ← append_assoc]
  rfl

theorem writeAll_eq (responses : List (JsonRpcResponse Value)) (stdout : List UInt8) :
    responses.foldlM (McpServer.writeResponse json.toVec) stdout =
      .ok (stdout ++ (responses.map json.body).flatMap encodeFrame) := by
  induction responses generalizing stdout with
  | nil => exact congrArg Except.ok (append_nil stdout).symm
  | cons response responses ih =>
    rw [foldlM_cons, writeResponse_eq]
    simp only [bind, Except.bind, ih, map_cons, flatMap_cons, append_assoc]

theorem handlePayload_eq (stdout payload : List UInt8) :
    McpServer.handlePayload json spec stdout payload =
      (stdout ++ framesOf json [McpServer.reply json spec payload], .ok ()) := by
  rw [McpServer.handlePayload]
  cases McpServer.reply json spec payload with
  | none => exact congrArg (·, Except.ok ()) (append_nil stdout).symm
  | some response =>
    simp only [writeResponse_eq, framesOf, reduceOption_singleton, Option.toList_some,
      map_cons, map_nil, flatMap_cons, flatMap_nil, append_nil]

theorem framesOf_cons (first : Option (JsonRpcResponse Value))
    (replies : List (Option (JsonRpcResponse Value))) :
    framesOf json (first :: replies) = framesOf json [first] ++ framesOf json replies := by
  have hsplit : (first :: replies).reduceOption =
      [first].reduceOption ++ replies.reduceOption := by
    rw [← reduceOption_append]
    rfl
  rw [framesOf, hsplit, map_append, flatMap_append]
  rfl

theorem foldl_framesOf (payloads : List (List UInt8)) (stdout : List UInt8) :
    payloads.foldl (fun out payload => out ++ framesOf json [McpServer.reply json spec payload])
        stdout =
      stdout ++ framesOf json (payloads.map (McpServer.reply json spec)) := by
  induction payloads generalizing stdout with
  | nil => exact (append_nil stdout).symm
  | cons payload payloads ih =>
    rw [foldl_cons, ih, map_cons,
      framesOf_cons json _ (payloads.map (McpServer.reply json spec)), append_assoc]

theorem run_eq {stdin : List UInt8} {payloads : List (List UInt8)}
    (h : McpServer.frameReader.Frames stdin payloads) :
    McpServer.run json spec stdin =
      (framesOf json (payloads.map (McpServer.reply json spec)), .ok ()) := by
  rw [McpServer.run, FrameReader.drive_frames (handlePayload_eq json spec) h, foldl_framesOf,
    nil_append]

theorem length_of_framesOf_eq {replies others : List (Option (JsonRpcResponse Value))}
    (h : framesOf json replies = framesOf json others) :
    replies.reduceOption.length = others.reduceOption.length := by
  have hread := congrArg (fun stream => (McpServer.frameReader.readAll stream).1) h
  simp only [framesOf, FrameReader.readAll_encoded McpServer.take_encodeFrame] at hread
  have hlen := congrArg List.length hread
  simpa only [length_map] using hlen

end Written

theorem JsonRpcId.ofValue_toValue (id : JsonRpcId) : ofValue id.toValue = some id := by
  cases id <;> rfl

variable {payload : List UInt8} {message value id : Value} {json : SerdeJson}
variable {reply : Option (JsonRpcResponse Value)}

theorem JsonRpcId.toValue_of_ofValue {id : JsonRpcId} (h : ofValue value = some id) :
    id.toValue = value := by
  unfold ofValue at h
  split at h
  all_goals first
    | cases h; rfl
    | cases h

theorem get_eq_none (h : ∀ entries, message ≠ .object entries) (key : String) :
    message.get key = none := by
  cases message with
  | object entries => exact absurd rfl (h entries)
  | _ => rfl

theorem dispatch_id (json : SerdeJson) (spec : McpServerSpec) (request : JsonRpcRequest Value) :
    (McpServer.dispatch json spec request).id = request.id ∧
      ((McpServer.dispatch json spec request).result.isSome ↔
        (McpServer.dispatch json spec request).error.isNone) := by
  unfold McpServer.dispatch McpServer.handleInitialize McpServer.handleToolsList
    McpServer.handleToolsCall McpServer.invalidParamsResponse resultResponse errorResponse
  split
  · simp
  split
  · simp
  split
  · split
    · simp
    · split <;> simp
  · simp

theorem decodeRequest_valid (h : ValidRequest message id) :
    (decodeRequest message).map JsonRpcRequest.id = JsonRpcId.ofValue id := by
  obtain ⟨entries, rfl⟩ := h.object
  obtain ⟨version, hversion⟩ := h.jsonrpc
  obtain ⟨method, hmethod⟩ := h.method
  simp only [decodeRequest, requestOf, h.member, hversion, hmethod, Value.asStr,
    Option.bind_eq_bind, Option.bind_some]
  cases JsonRpcId.ofValue id <;> rfl

theorem isId_of_ofValue {id : JsonRpcId} (h : JsonRpcId.ofValue value = some id) :
    IsId value := by
  rw [← JsonRpcId.toValue_of_ofValue h]
  cases id <;> exact trivial

theorem asStr_eq_some {text : String} (h : value.asStr = some text) :
    value = .string text := by
  cases value with
  | string value =>
    cases h
    rfl
  | _ => cases h

variable {request : JsonRpcRequest Value} {spec : McpServerSpec}

theorem valid_of_decodeRequest {entries : List (String × Value)}
    (h : decodeRequest (.object entries) = some request) :
    ∃ id, ValidRequest (.object entries) id := by
  simp only [decodeRequest, requestOf, Option.bind_eq_bind, Option.bind_eq_some_iff] at h
  obtain ⟨version, hversion, id, hid, method, hmethod, text, htext, decoded, hdecoded, name, hname,
    -⟩ := h
  exact ⟨id, ⟨_, rfl⟩, hid, isId_of_ofValue hdecoded,
    ⟨text, by rw [hversion, asStr_eq_some htext]⟩, ⟨name, by rw [hmethod, asStr_eq_some hname]⟩⟩

theorem reply_notJson (spec : McpServerSpec) {error : SerdeError}
    (h : json.fromSlice payload = .error error) :
    McpServer.reply json spec payload =
      some (errorResponse .null (-32700) ("parse error: " ++ error.message)) := by
  rw [McpServer.reply, h]

theorem reply_withoutId (spec : McpServerSpec) (h : json.fromSlice payload = .ok message)
    (hid : message.get "id" = none) :
    McpServer.reply json spec payload = none := by
  rw [McpServer.reply, h]
  simp only [hid, Option.isNone_none, if_true]

theorem reply_invalid (spec : McpServerSpec) (h : json.fromSlice payload = .ok message)
    (hid : message.get "id" = some id) (hdecode : decodeRequest message = none) :
    McpServer.reply json spec payload = some (errorResponse .null (-32600)
      ("invalid request: " ++ (json.requestError message).message)) := by
  rw [McpServer.reply, h]
  simp only [hid, Option.isNone_some, Bool.false_eq_true, if_false, hdecode]

theorem reply_request (spec : McpServerSpec) (h : json.fromSlice payload = .ok message)
    (hid : message.get "id" = some id) (hdecode : decodeRequest message = some request) :
    McpServer.reply json spec payload = some (McpServer.dispatch json spec request) := by
  rw [McpServer.reply, h]
  simp only [hid, Option.isNone_some, Bool.false_eq_true, if_false, hdecode]

theorem errorReply_errorResponse (id : JsonRpcId) (code : Int) (message : String) :
    ErrorReply code (errorResponse id code message) := ⟨rfl, _, rfl, rfl⟩

theorem reply_answers (json : SerdeJson) (spec : McpServerSpec)
    (h : ∀ message, json.fromSlice payload = .ok message → Understood message) :
    Answers json payload (McpServer.reply json spec payload) := by
  constructor
  · intro error herror
    exact ⟨_, reply_notJson spec herror, errorReply_errorResponse _ _ _⟩
  · intro message hparse
    obtain ⟨⟨entries, hobject⟩, hids⟩ := h message hparse
    refine ⟨?_, ?_, ?_⟩
    · rintro ⟨_, -, hid⟩
      exact reply_withoutId spec hparse hid
    · intro id hvalid
      have hdecode := decodeRequest_valid hvalid
      obtain ⟨known, hknown⟩ := Option.isSome_iff_exists.mp (hids id hvalid)
      rw [hknown, Option.map_eq_some_iff] at hdecode
      obtain ⟨request, hreq, hrequestId⟩ := hdecode
      obtain ⟨hid, hone⟩ := dispatch_id json spec request
      refine ⟨_, reply_request spec hparse hvalid.member hreq, ?_, hone⟩
      rw [hid, hrequestId]
      exact JsonRpcId.toValue_of_ofValue hknown
    · intro hnot hinvalid
      cases hid : message.get "id" with
      | none => exact absurd ⟨entries, hobject, hid⟩ hnot
      | some id =>
        cases hdecode : decodeRequest message with
        | none =>
          exact ⟨_, reply_invalid spec hparse hid hdecode, errorReply_errorResponse _ _ _⟩
        | some request =>
          rw [hobject] at hdecode hinvalid
          obtain ⟨other, hother⟩ := valid_of_decodeRequest hdecode
          exact absurd hother (hinvalid other)

theorem isSome_of_owed (howed : Answers json payload reply)
    (hparse : json.fromSlice payload = .ok message) (h : ¬Notification message) :
    reply.isSome := by
  obtain ⟨-, hvalid, hinvalid⟩ := howed.2 message hparse
  by_cases hreq : ∃ id, ValidRequest message id
  · obtain ⟨id, hreq⟩ := hreq
    obtain ⟨response, rfl, -⟩ := hvalid id hreq
    rfl
  · obtain ⟨response, rfl, -⟩ := hinvalid h (not_exists.mp hreq)
    rfl

theorem owed_of_reply (howed : Answers json payload reply)
    (h : (McpServer.reply json spec payload).isSome) : reply.isSome := by
  cases hparse : json.fromSlice payload with
  | error error =>
    obtain ⟨response, rfl, -⟩ := howed.1 error hparse
    rfl
  | ok message =>
    refine isSome_of_owed howed hparse ?_
    rintro ⟨_, -, hid⟩
    rw [reply_withoutId spec hparse hid] at h
    cases h

theorem understood_of_owed (howed : Answers json payload reply)
    (hreplied : reply.isSome → (McpServer.reply json spec payload).isSome)
    (hparse : json.fromSlice payload = .ok message) : Understood message := by
  constructor
  · by_contra hobject
    have hnone := get_eq_none (not_exists.mp hobject) "id"
    have hsome := isSome_of_owed howed hparse fun ⟨entries, heq, _⟩ => hobject ⟨entries, heq⟩
    have hreply := hreplied hsome
    rw [reply_withoutId spec hparse hnone] at hreply
    cases hreply
  · intro id hvalid
    obtain ⟨response, -, hid, -⟩ := (howed.2 message hparse).2.1 id hvalid
    rw [← hid, JsonRpcId.ofValue_toValue]
    rfl

section Count

variable {T : Type}

theorem length_reduceOption_cons (first : Option T) (rest : List (Option T)) :
    (first :: rest).reduceOption.length = first.toList.length + rest.reduceOption.length := by
  cases first with
  | none => simp [reduceOption_cons_of_none]
  | some value => simp [reduceOption_cons_of_some, Nat.add_comm]

theorem length_toList_le {given owed : Option T} (h : given.isSome → owed.isSome) :
    given.toList.length ≤ owed.toList.length := by
  cases given with
  | none => exact Nat.zero_le _
  | some value =>
    obtain ⟨other, rfl⟩ := Option.isSome_iff_exists.mp (h rfl)
    exact le_refl _

variable {given owed : List (Option T)}

theorem length_reduceOption_le (h : List.Forall₂ (fun g o => g.isSome → o.isSome) given owed) :
    given.reduceOption.length ≤ owed.reduceOption.length := by
  induction h with
  | nil => exact le_refl _
  | cons hfirst _ ih =>
    rw [length_reduceOption_cons, length_reduceOption_cons]
    exact Nat.add_le_add (length_toList_le hfirst) ih

theorem given_of_length (h : List.Forall₂ (fun g o => g.isSome → o.isSome) given owed)
    (hlen : owed.reduceOption.length ≤ given.reduceOption.length) :
    List.Forall₂ (fun g o => o.isSome → g.isSome) given owed := by
  induction h with
  | nil => exact .nil
  | @cons g o given owed hfirst hrest ih =>
    rw [length_reduceOption_cons, length_reduceOption_cons] at hlen
    have hfirstLe := length_toList_le hfirst
    have hrestLe := length_reduceOption_le hrest
    refine .cons (fun howed => ?_) (ih (by omega))
    obtain ⟨value, rfl⟩ := Option.isSome_iff_exists.mp howed
    cases g with
    | some value => rfl
    | none =>
      simp only [Option.toList_none, Option.toList_some, length_nil,
        length_singleton] at hlen
      omega

theorem exists_of_mem {A : Type} {owed given : A → Option T → Prop} {payload : A}
    {payloads : List A} {replies : List (Option T)} (hmem : payload ∈ payloads)
    (howed : List.Forall₂ owed payloads replies) (hgiven : List.Forall₂ given payloads replies) :
    ∃ reply, owed payload reply ∧ given payload reply := by
  induction howed with
  | nil => cases hmem
  | cons hfirst _ ih =>
    cases hgiven with
    | cons hgiven hrest =>
      rcases mem_cons.mp hmem with rfl | hmem
      · exact ⟨_, hfirst, hgiven⟩
      · exact ih hmem hrest

end Count

section Runs

variable {json : SerdeJson} {spec : McpServerSpec} {stdin : List UInt8}
  {payloads : List (List UInt8)}

theorem understood_of_answersAll (h : McpServer.frameReader.Frames stdin payloads)
    (hall : AnswersAll json spec stdin payloads) (hmem : payload ∈ payloads)
    (hparse : json.fromSlice payload = .ok message) :
    Understood message := by
  obtain ⟨-, replies, howed, hwritten⟩ := hall
  rw [writeAll_eq, nil_append, run_eq json spec h] at hwritten
  have hlen := length_of_framesOf_eq json (Except.ok.inj hwritten)
  have hgiven : List.Forall₂ (fun g o => g.isSome → o.isSome)
      (payloads.map (McpServer.reply json spec)) replies :=
    forall₂_map_left_iff.mpr (howed.imp fun _ _ => owed_of_reply)
  have hreplied := forall₂_map_left_iff.mp (given_of_length hgiven hlen.le)
  obtain ⟨reply, howed, hreplied⟩ := exists_of_mem hmem howed hreplied
  exact understood_of_owed howed hreplied hparse

theorem answersAll_of_understood (h : McpServer.frameReader.Frames stdin payloads)
    (hunderstood : ∀ payload ∈ payloads, ∀ message, json.fromSlice payload = .ok message →
      Understood message) : AnswersAll json spec stdin payloads := by
  rw [AnswersAll, run_eq json spec h]
  refine ⟨rfl, payloads.map (McpServer.reply json spec), ?_, ?_⟩
  · rw [forall₂_map_right_iff, forall₂_same]
    exact fun payload hmem => reply_answers json spec (hunderstood payload hmem)
  · rw [writeAll_eq, nil_append]
    rfl

end Runs

def emptyObject : Bytes := ⟨[0x7B, 0x7D], by decide⟩

def emptyArray : Bytes := ⟨[0x5B, 0x5D], by decide⟩

/-- A parser of these two payloads. No response is printed for them. -/
def emptyJson : SerdeJson where
  fromSlice payload :=
    if payload = emptyObject.data then .ok (.object [])
    else if payload = emptyArray.data then .ok (.array [])
    else .error ⟨"expected value at line 1 column 1"⟩
  requestError _ := ⟨"missing field `jsonrpc`"⟩
  callParamsError _ := ⟨"missing field `name`"⟩
  toVec _ := .ok emptyObject
  toVec_ok _ := ⟨_, rfl⟩

def idleSpec : McpServerSpec where
  serverName := "test"
  serverVersion := "9.9.9"
  tools := []
  toolHandler _ _ := .ok ""

theorem frames_of_encoded (payloads : List Bytes) :
    McpServer.frameReader.Frames (payloads.flatMap encodeFrame) (payloads.map Bytes.data) :=
  FrameReader.frames_encoded McpServer.take_encodeFrame McpServer.take_nil payloads

end DbClinic.Mcp
