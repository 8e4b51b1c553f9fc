import Mathlib.Data.List.TakeWhile
import DbClinic.Api.MessagePairing

/-!
The check of the messages only removes, and what it leaves it leaves alone. The
one exception is a tool message without an id: the first pass reads its id as the
empty text, the second pass does not see it at all.
-/

namespace DbClinic.Api.MessagePairing

open DbClinic.Runtime DbClinic.Serde List

variable {messages before : List Message} {message : Message}

theorem isTool_of_isOrphaned (h : isOrphaned before message = true) : IsTool message := by
  unfold isOrphaned at h
  split at h
  · assumption
  · cases h

theorem dropOrphansFrom_append (before front back : List Message) :
    dropOrphansFrom before (front ++ back) =
      dropOrphansFrom before front ++ dropOrphansFrom (before ++ front) back := by
  induction front generalizing before with
  | nil => simp [dropOrphansFrom]
  | cons first front ih =>
    have hrest := ih (before ++ [first])
    rw [append_assoc, singleton_append] at hrest
    by_cases horphaned : isOrphaned before first = true
    · simp [dropOrphansFrom, horphaned, hrest]
    · simp [dropOrphansFrom, horphaned, hrest]

theorem dropOrphansFrom_split {front back : List Message}
    (h : dropOrphansFrom before messages = front ++ message :: back) :
    ∃ front' back', messages = front' ++ message :: back' ∧
      dropOrphansFrom before front' = front ∧ isOrphaned (before ++ front') message = false ∧
      dropOrphansFrom (before ++ front' ++ [message]) back' = back := by
  induction messages generalizing before front with
  | nil => simp [dropOrphansFrom] at h
  | cons first rest ih =>
    by_cases horphaned : isOrphaned before first = true
    · simp only [dropOrphansFrom, horphaned, if_true] at h
      obtain ⟨front', back', rfl, hfront, hkept, hback⟩ := ih h
      refine ⟨first :: front', back', rfl, ?_, ?_, ?_⟩
      · simpa [dropOrphansFrom, horphaned] using hfront
      · simpa using hkept
      · simpa using hback
    · simp only [dropOrphansFrom, horphaned] at h
      cases front with
      | nil =>
        obtain ⟨rfl, hback⟩ := List.cons.inj h
        refine ⟨[], rest, rfl, rfl, ?_, ?_⟩
        · simpa using horphaned
        · simpa using hback
      | cons other front =>
        obtain ⟨rfl, hrest⟩ := List.cons.inj h
        obtain ⟨front', back', rfl, hfront, hkept, hback⟩ := ih hrest
        refine ⟨first :: front', back', rfl, ?_, ?_, ?_⟩
        · simpa [dropOrphansFrom, horphaned] using hfront
        · simpa using hkept
        · simpa using hback

theorem dropOrphansFrom_eq_self (h : ∀ front message back, messages = front ++ message :: back →
      isOrphaned (before ++ front) message = false) :
    dropOrphansFrom before messages = messages := by
  induction messages generalizing before with
  | nil => rfl
  | cons first rest ih =>
    have hfirst : isOrphaned before first = false := by simpa using h [] first rest rfl
    have hrest : dropOrphansFrom (before ++ [first]) rest = rest := by
      apply ih
      intro front message back hsplit
      simpa using h (first :: front) message back (by simp [hsplit])
    simp [dropOrphansFrom, hfirst, hrest]

theorem filter_dropOrphansFrom (before messages : List Message) :
    (dropOrphansFrom before messages).filter (fun m => ¬ IsTool m) =
      messages.filter fun m => ¬ IsTool m := by
  induction messages generalizing before with
  | nil => rfl
  | cons first rest ih =>
    by_cases horphaned : isOrphaned before first = true
    · have htool : IsTool first := isTool_of_isOrphaned horphaned
      simpa [dropOrphansFrom, horphaned, htool] using ih (before ++ [first])
    · by_cases htool : IsTool first
      · simpa [dropOrphansFrom, horphaned, htool] using ih (before ++ [first])
      · simpa [dropOrphansFrom, horphaned, htool] using ih (before ++ [first])

theorem dropOrphansFrom_sublist (before messages : List Message) :
    (dropOrphansFrom before messages).Sublist messages := by
  induction messages generalizing before with
  | nil => exact List.Sublist.slnil
  | cons first rest ih =>
    by_cases horphaned : isOrphaned before first = true
    · simpa [dropOrphansFrom, horphaned] using (ih (before ++ [first])).cons first
    · simpa [dropOrphansFrom, horphaned] using ih (before ++ [first])

theorem run_of_dropOrphansFrom (h : ∀ m ∈ dropOrphansFrom before messages, IsTool m) :
    ∀ m ∈ messages, IsTool m := by
  intro m hm
  by_contra htool
  have hmem : m ∈ messages.filter fun m => ¬ IsTool m := by simp [hm, htool]
  rw [← filter_dropOrphansFrom before] at hmem
  exact htool (h m (mem_of_mem_filter hmem))

theorem idsIn_cons (message : Message) (rest : List Message) :
    idsIn (message :: rest) =
      (if IsTool message then (toolCallId message).toList else []) ++ idsIn rest := by
  by_cases htool : IsTool message
  · cases hid : toolCallId message with
    | none => simp [idsIn, htool, hid]
    | some id => simp [idsIn, htool, hid]
  · simp [idsIn, htool]

theorem idsIn_strip (messages : List Message) :
    idsIn (stripOrphanedToolCalls messages) = idsIn messages := by
  induction messages with
  | nil => rfl
  | cons message rest ih =>
    rw [stripOrphanedToolCalls, idsIn_cons, idsIn_cons, ih]
    by_cases htool : IsTool message
    · simp [stripMessage_tool htool]
    · simp [isTool_stripMessage, htool]

theorem isAnswered_strip (messages : List Message) (call : Serde.Value) :
    isAnswered (stripOrphanedToolCalls messages) call = isAnswered messages call := by
  simp [isAnswered, idsIn_strip]

theorem stripMessage_eq_self {after : List Message}
    (h : ∀ call ∈ (toolCalls message).getD [], isAnswered after call = true) :
    stripMessage message after = message := by
  unfold stripMessage
  split
  · cases hcalls : toolCalls message with
    | none => rfl
    | some calls =>
      rw [hcalls] at h
      have hall : (calls.filter (isAnswered after)).length = calls.length :=
        length_filter_eq_length_iff.mpr h
      simp [hall]
  · rfl

theorem strip_strip (messages : List Message) :
    stripOrphanedToolCalls (stripOrphanedToolCalls messages) =
      stripOrphanedToolCalls messages := by
  induction messages with
  | nil => rfl
  | cons message rest ih =>
    simp only [stripOrphanedToolCalls, ih]
    congr 1
    by_cases hassistant : IsAssistant message
    · apply stripMessage_eq_self
      intro call hcall
      rw [isAnswered_strip]
      exact ((mem_toolCalls_stripMessage hassistant).mp hcall).2
    · simp [stripMessage, hassistant]

theorem strip_eq_self
    (h : ∀ before message after, messages = before ++ message :: after → IsAssistant message →
      ∀ call ∈ (toolCalls message).getD [], isAnswered after call = true) :
    stripOrphanedToolCalls messages = messages := by
  induction messages with
  | nil => rfl
  | cons message rest ih =>
    have hrest : stripOrphanedToolCalls rest = rest := by
      apply ih
      intro before other after hsplit
      exact h (message :: before) other after (by simp [hsplit])
    rw [stripOrphanedToolCalls, hrest]
    congr 1
    by_cases hassistant : IsAssistant message
    · exact stripMessage_eq_self (h [] message rest rfl hassistant)
    · simp [stripMessage, hassistant]

theorem filter_tools_strip (messages : List Message) :
    (stripOrphanedToolCalls messages).filter (fun m => IsTool m) =
      messages.filter fun m => IsTool m := by
  induction messages with
  | nil => rfl
  | cons message rest ih =>
    by_cases htool : IsTool message
    · simp [stripOrphanedToolCalls, stripMessage_tool htool, htool, ih]
    · simp [stripOrphanedToolCalls, isTool_stripMessage, htool, ih]

def withoutCalls : Message → Message
  | .object entries => .object (entries.filter fun e => e.1 ≠ "tool_calls")
  | other => other

/-- The message as it was, or with fewer calls; the key goes with the last one. -/
inductive LosesCalls (message : Message) : Message → Prop where
  | same : LosesCalls message message
  | fewer {kept : Message} {calls fewer : List Serde.Value} (hcalls : toolCalls message = some calls)
      (hfewer : fewer.Sublist calls)
      (hkept : kept.get "tool_calls" = if fewer = [] then none else some (.array fewer))
      (hrest : withoutCalls kept = withoutCalls message) : LosesCalls message kept

theorem filter_insertEntry {α : Type} (key : String) (value : α) (entries : List (String × α)) :
    (insertEntry key value entries).filter (fun e => e.1 ≠ key) =
      entries.filter fun e => e.1 ≠ key := by
  induction entries with
  | nil => simp [insertEntry]
  | cons first rest ih =>
    obtain ⟨k, v⟩ := first
    by_cases hkey : key = k
    · simp [insertEntry, hkey]
    · by_cases hlt : key < k
      · simp [insertEntry, hkey, hlt]
      · have hother : k ≠ key := Ne.symm hkey
        simp only [insertEntry, hkey, hlt, if_false]
        simp only [filter_cons, hother, ne_eq, not_false_eq_true, decide_true, if_true]
        exact congrArg _ ih

theorem withoutCalls_setToolCalls (kept : List Serde.Value) (message : Message) :
    withoutCalls (setToolCalls kept message) = withoutCalls message := by
  cases message with
  | object entries =>
    by_cases hnone : kept = []
    · simp [setToolCalls, withoutCalls, hnone]
    · simp only [setToolCalls, withoutCalls, hnone, if_false, filter_insertEntry]
  | _ => rfl

theorem losesCalls_stripMessage (message : Message) (after : List Message) :
    LosesCalls message (stripMessage message after) := by
  unfold stripMessage
  split
  · cases hcalls : toolCalls message with
    | none => exact .same
    | some calls =>
      dsimp only
      split
      · exact .same
      · apply LosesCalls.fewer hcalls filter_sublist
        · exact get_setToolCalls_self hcalls _
        · exact withoutCalls_setToolCalls _ message
  · exact .same

theorem losesCalls_strip (messages : List Message) :
    List.Forall₂ LosesCalls (messages.filter fun m => ¬ IsTool m)
      ((stripOrphanedToolCalls messages).filter fun m => ¬ IsTool m) := by
  induction messages with
  | nil => exact List.Forall₂.nil
  | cons message rest ih =>
    by_cases htool : IsTool message
    · simpa [stripOrphanedToolCalls, stripMessage_tool htool, htool] using ih
    · simpa [stripOrphanedToolCalls, isTool_stripMessage, htool] using
        And.intro (losesCalls_stripMessage message rest) ih

/-- Each call is answered in the run of tool messages behind its message. -/
def EveryCallAnswered (messages : List Message) : Prop :=
  ∀ before caller after, messages = before ++ caller :: after → IsAssistant caller →
    ∀ call ∈ (toolCalls caller).getD [], ∃ id, callId call = some id ∧
      ∃ m ∈ after.takeWhile fun m => IsTool m, toolCallId m = some id

/-- Each tool message in the run behind an assistant message answers one of its
calls. -/
def EveryResultCalled (messages : List Message) : Prop :=
  ∀ earlier caller run message later,
    messages = earlier ++ caller :: (run ++ message :: later) → IsAssistant caller →
    (∀ m ∈ run, IsTool m) → IsTool message → ∃ id, toolCallId message = some id ∧
      ∃ call ∈ (toolCalls caller).getD [], callId call = some id

/-- Where a tool message without an id stands behind an assistant message with a
call of the empty id, a tool message further on has the empty id, and is no orphan. -/
def BlankIdsAnswered (messages : List Message) : Prop :=
  ∀ earlier caller run message later,
    messages = earlier ++ caller :: (run ++ message :: later) → IsAssistant caller →
    (∀ m ∈ run, IsTool m) → IsTool message → toolCallId message = none →
    (∃ call ∈ (toolCalls caller).getD [], callId call = some "") →
    ∃ front answer back, run ++ message :: later = front ++ answer :: back ∧ IsTool answer ∧
      toolCallId answer = some "" ∧ isOrphaned (earlier ++ caller :: front) answer = false

structure OnlyRemoves (messages : List Message) : Prop where
  others : List.Forall₂ LosesCalls (messages.filter fun m => ¬ IsTool m)
    ((sanitizeToolMessagePairing messages).filter fun m => ¬ IsTool m)
  tools : ((sanitizeToolMessagePairing messages).filter fun m => IsTool m).Sublist
    (messages.filter fun m => IsTool m)
  fixed : BlankIdsAnswered messages →
    sanitizeToolMessagePairing (sanitizeToolMessagePairing messages) =
      sanitizeToolMessagePairing messages
  unchanged : EveryCallAnswered messages → EveryResultCalled messages →
    sanitizeToolMessagePairing messages = messages

theorem preceding_eq_some {caller : Message} (h : preceding before = some caller) :
    ∃ earlier run, before = earlier ++ caller :: run ∧ (∀ m ∈ run, IsTool m) := by
  unfold preceding at h
  rw [find?_eq_some_iff_append] at h
  obtain ⟨-, run, earlier, hsplit, hrun⟩ := h
  refine ⟨earlier.reverse, run.reverse, ?_, ?_⟩
  · have hreverse := congrArg List.reverse hsplit
    simpa using hreverse
  · intro m hm
    simpa using hrun m (mem_reverse.mp hm)

theorem not_orphaned_of_called
    (h : ∀ earlier caller run, before = earlier ++ caller :: run → IsAssistant caller →
      (∀ m ∈ run, IsTool m) → IsTool message →
      ∃ call ∈ (toolCalls caller).getD [], callId call = some ((toolCallId message).getD "")) :
    isOrphaned before message = false := by
  unfold isOrphaned
  split
  · rename_i htool
    cases hpreceding : preceding before with
    | none => rfl
    | some caller =>
      dsimp only
      split
      · rename_i hassistant
        obtain ⟨earlier, run, hsplit, hrun⟩ := preceding_eq_some hpreceding
        obtain ⟨call, hcall, hid⟩ := h earlier caller run hsplit hassistant hrun htool
        simp only [Bool.not_eq_false', any_eq_true]
        exact ⟨call, hcall, decide_eq_true hid⟩
      · rfl
  · rfl

theorem answered_of_kept {earlier run later : List Message} {caller : Message} {call : Serde.Value}
    (hblank : BlankIdsAnswered messages)
    (h : dropOrphansFrom [] messages = earlier ++ caller :: (run ++ message :: later))
    (hassistant : IsAssistant caller) (hrun : ∀ m ∈ run, IsTool m) (htool : IsTool message)
    (hmem : call ∈ (toolCalls caller).getD [])
    (hcall : callId call = some ((toolCallId message).getD "")) :
    isAnswered (run ++ message :: later) call = true := by
  cases hid : toolCallId message with
  | some id =>
    have hanswer : id ∈ idsIn (run ++ message :: later) :=
      mem_idsIn.mpr ⟨message, by simp, htool, hid⟩
    simpa [isAnswered, hcall, hid] using hanswer
  | none =>
    have hempty : callId call = some "" := by simpa [hid] using hcall
    -- The same assistant message and its run, before the first pass.
    obtain ⟨earlier', rest', rfl, -, -, hrest⟩ := dropOrphansFrom_split h
    obtain ⟨run', later', rfl, hrun', -, -⟩ := dropOrphansFrom_split hrest
    have htools : ∀ m ∈ run', IsTool m := run_of_dropOrphansFrom (by rwa [hrun'])
    obtain ⟨front, answer, back, hfront, hanswerTool, hanswerId, hkept⟩ :=
      hblank earlier' caller run' message later' rfl hassistant htools htool hid
        ⟨call, hmem, hempty⟩
    have hanswer : answer ∈ run ++ message :: later := by
      rw [← hrest, hfront, dropOrphansFrom_append]
      simp [dropOrphansFrom, hkept]
    have hids : "" ∈ idsIn (run ++ message :: later) :=
      mem_idsIn.mpr ⟨answer, hanswer, hanswerTool, hanswerId⟩
    simpa [isAnswered, hempty] using hids

theorem sanitized_keeps_results (hblank : BlankIdsAnswered messages) :
    dropOrphansFrom [] (sanitizeToolMessagePairing messages) =
      sanitizeToolMessagePairing messages := by
  apply dropOrphansFrom_eq_self
  intro before message after hout
  apply not_orphaned_of_called
  intro earlier caller run hbefore hassistant hrun htool
  have hsplit : stripOrphanedToolCalls (dropOrphansFrom [] messages) =
      earlier ++ caller :: (run ++ message :: after) := by
    rw [nil_append] at hbefore
    unfold sanitizeToolMessagePairing at hout
    simp [hout, hbefore]
  obtain ⟨earlier', caller', more, hkept, rfl, hassistant'⟩ :=
    strip_run hsplit hassistant hrun htool
  obtain ⟨call, hcall, hid⟩ := called_of_kept hkept hassistant' hrun htool
  have hanswered := answered_of_kept hblank hkept hassistant' hrun htool hcall hid
  exact ⟨call, (mem_toolCalls_stripMessage hassistant').mpr ⟨hcall, hanswered⟩, hid⟩

theorem sanitized_fixed (hblank : BlankIdsAnswered messages) :
    sanitizeToolMessagePairing (sanitizeToolMessagePairing messages) =
      sanitizeToolMessagePairing messages := by
  have hfirst := sanitized_keeps_results hblank
  rw [sanitizeToolMessagePairing, hfirst, sanitizeToolMessagePairing, strip_strip]

theorem sanitized_unchanged (hcalls : EveryCallAnswered messages)
    (hresults : EveryResultCalled messages) : sanitizeToolMessagePairing messages = messages := by
  have hfirst : dropOrphansFrom [] messages = messages := by
    apply dropOrphansFrom_eq_self
    intro before message after hsplit
    apply not_orphaned_of_called
    intro earlier caller run hbefore hassistant hrun htool
    rw [nil_append] at hbefore
    obtain ⟨id, hid, call, hcall, hcallId⟩ := hresults earlier caller run message after
      (by simp [hsplit, hbefore]) hassistant hrun htool
    exact ⟨call, hcall, by simp [hid, hcallId]⟩
  rw [sanitizeToolMessagePairing, hfirst]
  apply strip_eq_self
  intro before caller after hsplit hassistant call hcall
  obtain ⟨id, hid, m, hm, hmId⟩ := hcalls before caller after hsplit hassistant call hcall
  have htool : IsTool m := by simpa using mem_takeWhile_imp hm
  have hanswer : id ∈ idsIn after :=
    mem_idsIn.mpr ⟨m, takeWhile_subset _ hm, htool, hmId⟩
  simpa [isAnswered, hid] using hanswer

/-- For every list of messages: the check takes tool messages and calls away and
nothing else, a second check takes nothing more away, and a history in which calls
and results belong together stays as it is. -/
theorem sanitize_only_removes (messages : List Message) : OnlyRemoves messages where
  others := by
    have h := losesCalls_strip (dropOrphansFrom [] messages)
    rwa [filter_dropOrphansFrom] at h
  tools := by
    have h := (dropOrphansFrom_sublist [] messages).filter fun m => IsTool m
    rwa [← filter_tools_strip] at h
  fixed := sanitized_fixed
  unchanged := sanitized_unchanged

/-- Behind an assistant message without calls a result is dropped, although every
call of the history is answered. -/
theorem sanitized_drops_uncalled_result :
    EveryCallAnswered
      [.object [("content", .string "done"), ("role", .string "assistant")],
        .object [("content", .string "result"), ("role", .string "tool"),
          ("tool_call_id", .string "call_1")]] ∧
    sanitizeToolMessagePairing
      [.object [("content", .string "done"), ("role", .string "assistant")],
        .object [("content", .string "result"), ("role", .string "tool"),
          ("tool_call_id", .string "call_1")]] ≠
      [.object [("content", .string "done"), ("role", .string "assistant")],
        .object [("content", .string "result"), ("role", .string "tool"),
          ("tool_call_id", .string "call_1")]] := by
  refine ⟨?_, fun hsame => absurd (congrArg List.length hsame) (by decide)⟩
  intro before caller after hsplit hassistant call hcall
  have hmem : caller ∈ before ++ caller :: after := by simp
  rw [← hsplit] at hmem
  simp only [mem_cons, not_mem_nil, or_false] at hmem
  rcases hmem with rfl | rfl
  · simp [toolCalls, Value.get, getEntry] at hcall
  · simp [toolCalls, Value.get, getEntry] at hcall

end DbClinic.Api.MessagePairing
