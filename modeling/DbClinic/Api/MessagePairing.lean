import DbClinic.Runtime.JsonRoundTrip
import DbClinic.Runtime.Json

/-!
The last check of the messages of a chat request. A tool message behind an
assistant message that has not called it is dropped, and then each call that no
later tool message answers. A tool message behind any other message is let
through, and a call may be answered anywhere behind it.
-/

namespace DbClinic.Api.MessagePairing

open DbClinic.Runtime DbClinic.Serde List

abbrev Message := Serde.Value

/-- `value.get(key).and_then(as_str)`. -/
def textAt (value : Serde.Value) (key : String) : Option String := (value.get key).bind Value.asStr

def role (message : Message) : Option String := textAt message "role"

def IsTool (message : Message) : Prop := role message = some "tool"

instance (message : Message) : Decidable (IsTool message) := inferInstanceAs (Decidable (_ = _))

def IsAssistant (message : Message) : Prop := role message = some "assistant"

instance (message : Message) : Decidable (IsAssistant message) := inferInstanceAs (Decidable (_ = _))

def asArray : Serde.Value → Option (List Serde.Value)
  | .array values => some values
  | _ => none

def toolCalls (message : Message) : Option (List Serde.Value) :=
  (message.get "tool_calls").bind asArray

def callId (call : Serde.Value) : Option String := textAt call "id"

def toolCallId (message : Message) : Option String := textAt message "tool_call_id"

def preceding (before : List Message) : Option Message :=
  before.reverse.find? fun message => ¬ IsTool message

def isOrphaned (before : List Message) (message : Message) : Bool :=
  if IsTool message then
    match preceding before with
    | some other =>
      if IsAssistant other then
        !((toolCalls other).getD []).any fun call =>
          callId call = some ((toolCallId message).getD "")
      else false
    | none => false
  else false

/-- The first pass, behind the messages `before`. -/
def dropOrphansFrom (before : List Message) : List Message → List Message
  | [] => []
  | message :: rest =>
    if isOrphaned before message then dropOrphansFrom (before ++ [message]) rest
    else message :: dropOrphansFrom (before ++ [message]) rest

def idsIn (messages : List Message) : List String :=
  (messages.filter fun message => IsTool message).filterMap toolCallId

/-- `as_object_mut` with a change of the key `tool_calls`. -/
def setToolCalls (kept : List Serde.Value) : Message → Message
  | .object entries =>
    if kept = [] then .object (entries.filter fun e => e.1 ≠ "tool_calls")
    else .object (insertEntry "tool_calls" (.array kept) entries)
  | other => other

def isAnswered (after : List Message) (call : Serde.Value) : Bool :=
  (callId call).any fun id => id ∈ idsIn after

/-- One round of `strip_orphaned_tool_calls`. Where no call is dropped, as of an
empty list, the message stays as it is. -/
def stripMessage (message : Message) (after : List Message) : Message :=
  if IsAssistant message then
    match toolCalls message with
    | none => message
    | some calls =>
      let kept := calls.filter (isAnswered after)
      if kept.length = calls.length then message else setToolCalls kept message
  else message

/-- `strip_orphaned_tool_calls`; a round looks at later messages that no round has
changed. -/
def stripOrphanedToolCalls : List Message → List Message
  | [] => []
  | message :: rest => stripMessage message rest :: stripOrphanedToolCalls rest

def sanitizeToolMessagePairing (messages : List Message) : List Message :=
  stripOrphanedToolCalls (dropOrphansFrom [] messages)

theorem get_setToolCalls {key : String} (hkey : key ≠ "tool_calls") (kept : List Serde.Value)
    (message : Message) : (setToolCalls kept message).get key = message.get key := by
  cases message with
  | object entries =>
    unfold setToolCalls
    dsimp only
    split
    · change getEntry (entries.filter _) key = getEntry entries key
      rw [getEntry_filter_ne, if_neg hkey.symm]
    · change getEntry (insertEntry _ _ entries) key = getEntry entries key
      rw [getEntry_insertEntry, if_neg hkey.symm]
  | _ => rfl

variable {message caller : Message} {messages run after back later : List Message}

theorem get_setToolCalls_self {calls : List Serde.Value} (hcalls : toolCalls message = some calls)
    (kept : List Serde.Value) :
    (setToolCalls kept message).get "tool_calls" =
      if kept = [] then none else some (.array kept) := by
  cases message with
  | object entries =>
    by_cases hnone : kept = []
    · have hgone := getEntry_filter_ne "tool_calls" entries "tool_calls"
      rw [if_pos rfl] at hgone
      simpa only [setToolCalls, hnone, if_true, Value.get] using hgone
    · simp [setToolCalls, hnone, Value.get, getEntry_insertEntry]
  | _ => cases hcalls

theorem role_stripMessage (message : Message) (after : List Message) :
    role (stripMessage message after) = role message := by
  unfold stripMessage
  split
  · cases toolCalls message with
    | none => rfl
    | some calls =>
      dsimp only
      split
      · rfl
      · unfold role textAt
        rw [get_setToolCalls (by decide)]
  · rfl

theorem not_tool_of_assistant (h : IsAssistant message) : ¬ IsTool message := by
  intro htool
  have hsame : "assistant" = "tool" := Option.some.inj (h.symm.trans htool)
  exact absurd hsame (by decide)

theorem stripMessage_tool (h : IsTool message) (after : List Message) :
    stripMessage message after = message := by
  unfold stripMessage
  rw [if_neg]
  intro hassistant
  exact not_tool_of_assistant hassistant h

theorem isTool_stripMessage :
    IsTool (stripMessage message after) ↔ IsTool message := by
  unfold IsTool
  rw [role_stripMessage]

theorem isAssistant_stripMessage :
    IsAssistant (stripMessage message after) ↔ IsAssistant message := by
  unfold IsAssistant
  rw [role_stripMessage]

theorem mem_strip_of_tool (hmem : message ∈ messages) (htool : IsTool message) :
    message ∈ stripOrphanedToolCalls messages := by
  induction messages with
  | nil => cases hmem
  | cons first rest ih =>
    rw [stripOrphanedToolCalls]
    rcases mem_cons.mp hmem with rfl | hrest
    · rw [stripMessage_tool htool]
      exact mem_cons_self
    · exact mem_cons_of_mem _ (ih hrest)

variable {front earlier before : List Message}

theorem strip_split (h : stripOrphanedToolCalls messages = front ++ back) :
    ∃ front' back', messages = front' ++ back' ∧ stripOrphanedToolCalls back' = back := by
  induction front generalizing messages with
  | nil => exact ⟨[], messages, rfl, h⟩
  | cons first front ih =>
    cases messages with
    | nil => cases h
    | cons message rest =>
      obtain ⟨_, hrest⟩ := List.cons.inj h
      obtain ⟨front', back', rfl, hback⟩ := ih hrest
      exact ⟨message :: front', back', rfl, hback⟩

theorem strip_cons {first : Message} (h : stripOrphanedToolCalls messages = first :: back) :
    ∃ message rest, messages = message :: rest ∧ first = stripMessage message rest ∧
      stripOrphanedToolCalls rest = back := by
  cases messages with
  | nil => cases h
  | cons message rest =>
    obtain ⟨hfirst, hrest⟩ := List.cons.inj h
    exact ⟨message, rest, rfl, hfirst.symm, hrest⟩

theorem strip_tools (h : stripOrphanedToolCalls messages = run ++ later)
    (hrun : ∀ m ∈ run, IsTool m) :
    ∃ rest, messages = run ++ rest ∧ stripOrphanedToolCalls rest = later := by
  induction run generalizing messages with
  | nil => exact ⟨messages, rfl, h⟩
  | cons first run ih =>
    obtain ⟨htool, hmore⟩ := forall_mem_cons.mp hrun
    obtain ⟨message, rest, rfl, hfirst, hback⟩ := strip_cons h
    obtain ⟨more, rfl, hlater⟩ := ih hback hmore
    have hmsg : IsTool message := isTool_stripMessage.mp (hfirst ▸ htool)
    rw [stripMessage_tool hmsg] at hfirst
    rw [← hfirst]
    exact ⟨more, rfl, hlater⟩

theorem strip_run
    (h : stripOrphanedToolCalls messages = earlier ++ caller :: (run ++ message :: later))
    (hassistant : IsAssistant caller) (hrun : ∀ m ∈ run, IsTool m) (htool : IsTool message) :
    ∃ earlier' caller' more, messages = earlier' ++ caller' :: (run ++ message :: more) ∧
      caller = stripMessage caller' (run ++ message :: more) ∧ IsAssistant caller' := by
  obtain ⟨earlier', back, rfl, hback⟩ := strip_split h
  obtain ⟨caller', rest, rfl, rfl, hrest⟩ := strip_cons hback
  have htools : ∀ m ∈ run ++ [message], IsTool m := by
    intro m hm
    rcases mem_append.mp hm with hm | hm
    · exact hrun m hm
    · rw [mem_singleton.mp hm]
      exact htool
  have hsplit : stripOrphanedToolCalls rest = (run ++ [message]) ++ later := by simp [hrest]
  obtain ⟨more, rfl, -⟩ := strip_tools hsplit htools
  rw [append_assoc, singleton_append]
  exact ⟨earlier', caller', more, rfl, rfl, isAssistant_stripMessage.mp hassistant⟩

theorem preceding_append_tool (h : IsTool message) (after : List Message) :
    preceding (before ++ [message] ++ after) = preceding (before ++ after) := by
  unfold preceding
  simp only [reverse_append, find?_append, reverse_singleton, find?_singleton]
  rw [if_neg (by simpa using h), Option.none_or]

theorem preceding_run (hcaller : ¬ IsTool caller) (earlier : List Message)
    (hrun : ∀ m ∈ run, IsTool m) :
    preceding (earlier ++ caller :: run) = some caller := by
  unfold preceding
  rw [reverse_append, reverse_cons, append_assoc, find?_append]
  have hnone : run.reverse.find? (fun message => decide ¬ IsTool message) = none := by
    rw [find?_eq_none]
    intro m hm
    simpa using hrun m (mem_reverse.mp hm)
  rw [hnone, Option.none_or, singleton_append, find?_cons_of_pos (by simpa using hcaller)]

theorem not_orphaned_of_kept (h : dropOrphansFrom before messages = front ++ message :: back) :
    ∃ before', isOrphaned before' message = false ∧
      preceding before' = preceding (before ++ front) := by
  induction messages generalizing before front with
  | nil =>
    have hnil := congrArg List.length h
    simp [dropOrphansFrom] at hnil
  | cons first rest ih =>
    unfold dropOrphansFrom at h
    split at h
    · rename_i horphaned
      have htool : IsTool first := by
        unfold isOrphaned at horphaned
        split at horphaned
        · assumption
        · cases horphaned
      obtain ⟨before', hkept, hpreceding⟩ := ih h
      refine ⟨before', hkept, ?_⟩
      rw [hpreceding, preceding_append_tool htool]
    · rename_i hkept
      cases front with
      | nil =>
        obtain ⟨rfl, _⟩ := List.cons.inj h
        refine ⟨before, Bool.eq_false_iff.mpr hkept, ?_⟩
        rw [append_nil]
      | cons other front =>
        obtain ⟨rfl, hrest⟩ := List.cons.inj h
        obtain ⟨before', hkept', hpreceding⟩ := ih hrest
        refine ⟨before', hkept', ?_⟩
        rw [hpreceding, append_assoc, singleton_append]

theorem called_of_kept
    (h : dropOrphansFrom [] messages = earlier ++ caller :: (run ++ message :: later))
    (hassistant : IsAssistant caller) (hrun : ∀ m ∈ run, IsTool m) (htool : IsTool message) :
    ∃ call ∈ (toolCalls caller).getD [], callId call = some ((toolCallId message).getD "") := by
  have hsplit : dropOrphansFrom [] messages = (earlier ++ caller :: run) ++ message :: later := by
    simp [h]
  obtain ⟨before', hnot, hpreceding⟩ := not_orphaned_of_kept hsplit
  rw [nil_append, preceding_run (not_tool_of_assistant hassistant) earlier hrun] at hpreceding
  unfold isOrphaned at hnot
  simp only [htool, hpreceding, hassistant, if_true, Bool.not_eq_false', any_eq_true] at hnot
  obtain ⟨call, hcall, hid⟩ := hnot
  exact ⟨call, hcall, of_decide_eq_true hid⟩

theorem mem_toolCalls_stripMessage (hassistant : IsAssistant message) {call : Serde.Value} :
    call ∈ (toolCalls (stripMessage message after)).getD [] ↔
      call ∈ (toolCalls message).getD [] ∧ isAnswered after call = true := by
  unfold stripMessage
  rw [if_pos hassistant]
  cases hcalls : toolCalls message with
  | none =>
    dsimp only
    rw [hcalls]
    exact iff_of_false not_mem_nil fun h => not_mem_nil h.1
  | some calls =>
    dsimp only
    split
    · rename_i hall
      have hanswered : ∀ c ∈ calls, isAnswered after c = true :=
        length_filter_eq_length_iff.mp hall
      rw [hcalls, Option.getD_some]
      exact ⟨fun h => ⟨h, hanswered call h⟩, And.left⟩
    · have hkept : (toolCalls (setToolCalls (calls.filter (isAnswered after)) message)).getD [] =
          calls.filter (isAnswered after) := by
        rw [toolCalls, get_setToolCalls_self hcalls]
        split
        · rename_i hnone
          exact hnone.symm
        · rfl
      rw [hkept, mem_filter, Option.getD_some]

theorem mem_idsIn {id : String} :
    id ∈ idsIn messages ↔ ∃ m ∈ messages, IsTool m ∧ toolCallId m = some id := by
  unfold idsIn
  rw [mem_filterMap]
  constructor
  · rintro ⟨m, hm, hid⟩
    obtain ⟨hmem, htool⟩ := mem_filter.mp hm
    exact ⟨m, hmem, of_decide_eq_true htool, hid⟩
  · rintro ⟨m, hmem, htool, hid⟩
    exact ⟨m, mem_filter.mpr ⟨hmem, decide_eq_true htool⟩, hid⟩

def HasContent (message : Message) : Prop :=
  match message.get "content" with
  | some .null => False
  | some _ => True
  | none => False

/-- The provider's rule: a tool message lies in the run of tool messages behind
the assistant message that calls it, each call is answered in that run, and an
assistant message has a content or calls. -/
structure FollowsPairingRule (messages : List Message) : Prop where
  called : ∀ before message after, messages = before ++ message :: after → IsTool message →
    ∃ earlier caller run id, before = earlier ++ caller :: run ∧ (∀ m ∈ run, IsTool m) ∧
      IsAssistant caller ∧ toolCallId message = some id ∧
      ∃ call ∈ (toolCalls caller).getD [], callId call = some id
  answered : ∀ before caller after, messages = before ++ caller :: after → IsAssistant caller →
    ∀ call ∈ (toolCalls caller).getD [], ∃ id, callId call = some id ∧
      ∃ m ∈ after.takeWhile fun m => IsTool m, toolCallId m = some id
  spoken : ∀ message ∈ messages, IsAssistant message →
    HasContent message ∨ (toolCalls message).getD [] ≠ []

/-- A tool message with an id, in the run of tool messages behind an assistant
message, is called by it; and each call is answered by a tool message somewhere
behind it. -/
structure PairsUp (messages : List Message) : Prop where
  called : ∀ earlier caller run message later,
    messages = earlier ++ caller :: (run ++ message :: later) → IsAssistant caller →
    (∀ m ∈ run, IsTool m) → IsTool message → ∀ id, toolCallId message = some id →
      ∃ call ∈ (toolCalls caller).getD [], callId call = some id
  answered : ∀ before caller after, messages = before ++ caller :: after → IsAssistant caller →
    ∀ call ∈ (toolCalls caller).getD [], ∃ id, callId call = some id ∧
      ∃ m ∈ after, IsTool m ∧ toolCallId m = some id

/-- For every list of messages, what the check leaves pairs up. -/
theorem sanitized_pairs_up (messages : List Message) :
    PairsUp (sanitizeToolMessagePairing messages) := by
  unfold sanitizeToolMessagePairing
  constructor
  · intro earlier caller run message later hout hassistant hrun htool id hid
    -- Both passes left the message behind the same assistant message.
    obtain ⟨earlier', caller', more, hkept, rfl, hassistant'⟩ :=
      strip_run hout hassistant hrun htool
    obtain ⟨call, hcall, hcallId⟩ := called_of_kept hkept hassistant' hrun htool
    rw [hid, Option.getD_some] at hcallId
    have hmem : id ∈ idsIn (run ++ message :: more) :=
      mem_idsIn.mpr ⟨message, by simp, htool, hid⟩
    have hanswered : isAnswered (run ++ message :: more) call = true := by
      simpa [isAnswered, hcallId] using hmem
    exact ⟨call, (mem_toolCalls_stripMessage hassistant').mpr ⟨hcall, hanswered⟩, hcallId⟩
  · intro before caller after hout hassistant call hcall
    obtain ⟨_, back, _, hback⟩ := strip_split hout
    obtain ⟨caller', rest, rfl, rfl, rfl⟩ := strip_cons hback
    have hassistant' : IsAssistant caller' := isAssistant_stripMessage.mp hassistant
    obtain ⟨_, hanswered⟩ := (mem_toolCalls_stripMessage hassistant').mp hcall
    unfold isAnswered at hanswered
    cases hid : callId call with
    | none =>
      rw [hid] at hanswered
      cases hanswered
    | some id =>
      rw [hid] at hanswered
      obtain ⟨m, hm, htool, hmId⟩ := mem_idsIn.mp (of_decide_eq_true hanswered)
      exact ⟨id, rfl, m, mem_strip_of_tool hm htool, htool, hmId⟩

/-- A user's message with a tool result behind it is let through. -/
theorem sanitized_keeps_tool_behind_user : ¬ FollowsPairingRule (sanitizeToolMessagePairing
    [.object [("content", .string "hello"), ("role", .string "user")],
      .object [("content", .string "result"), ("role", .string "tool"),
        ("tool_call_id", .string "call_1")]]) := by
  have hsame : sanitizeToolMessagePairing
      [.object [("content", .string "hello"), ("role", .string "user")],
        .object [("content", .string "result"), ("role", .string "tool"),
          ("tool_call_id", .string "call_1")]] =
      [.object [("content", .string "hello"), ("role", .string "user")]] ++
        .object [("content", .string "result"), ("role", .string "tool"),
          ("tool_call_id", .string "call_1")] :: [] := by
    rfl
  intro hrule
  rw [hsame] at hrule
  obtain ⟨earlier, caller, run, _, hbefore, hrun, hassistant, _⟩ := hrule.called _ _ _ rfl rfl
  cases earlier with
  | nil =>
    obtain ⟨rfl, _⟩ := List.cons.inj hbefore
    have hsame : "user" = "assistant" := Option.some.inj hassistant
    exact absurd hsame (by decide)
  | cons first earlier =>
    have hlen := congrArg List.length hbefore
    simp at hlen

end DbClinic.Api.MessagePairing
