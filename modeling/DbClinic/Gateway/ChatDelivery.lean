import DbClinic.Gateway.Chat

/-!
Which messages of a chat reach the kernel. The slot holds the content of one
message and none of its attachments, and what comes in while it is taken either
passes the message that waits or replaces it.
-/

namespace DbClinic.Gateway

open List

def ChatInput.userMessage? (input : ChatInput) : Option UserMessage :=
  match input.payload with
  | .userMessage message => some message
  | _ => none

def userMessages (inputs : List ChatInput) : List UserMessage :=
  inputs.filterMap ChatInput.userMessage?

namespace Received

def isUserMessage (f : Received) : Bool := decide (frameKind f.data = some .userMessage)

def isSelection (f : Received) : Bool := decide (frameKind f.data = some .skillSelection)

def closes (f : Received) : Bool :=
  f.isSelection || decide (frameKind f.data = some .cancel)

def skillMatch (f : Received) : Option SkillMatch := f.matching.join

end Received

/-- A selection comes before any cancel. -/
def selected : List Received → Bool
  | [] => false
  | f :: frames => if f.closes then f.isSelection else selected frames

/-- The messages that are to be on the stream: one that matches no skills at once,
one that matches some if it is selected before it is cancelled. -/
def due : List Received → List PyValue
  | [] => []
  | f :: frames =>
    if f.isUserMessage && (f.skillMatch.isNone || selected frames) then f.data :: due frames
    else due frames

/-- The message has the content that was sent, and the attachments. -/
def Carries (pyRepr : PyValue → String) (data : PyValue) (message : UserMessage) : Prop :=
  (∃ before text, contentOf data = .str text ∧ message.content = before ++ text) ∧
  ∃ attachments, protoAttachments pyRepr data = some attachments ∧
    attachments.Sublist message.context

/-- The messages that are due are on the stream, each once and in order. -/
def Delivered (pyRepr : PyValue → String) (frames : List Received) (s : ChatState) : Prop :=
  List.Forall₂ (Carries pyRepr) (due frames) (userMessages s.inputs)

/-- A message that can be put on the stream as it is. -/
def Readable (pyRepr : PyValue → String) (f : Received) : Prop :=
  f.matching.isSome ∧ (∃ text, contentOf f.data = .str text) ∧
    (contextOf f.data).len.isSome ∧ (protoAttachments pyRepr f.data).isSome

/-- The frames that a matched message is selected by: no message in between, none
but the marker's attachments, and ids that can be read. -/
structure Undisturbed (pyRepr : PyValue → String) (files : SkillFiles) (f : Received)
    (between : List Received) (selection : Received) : Prop where
  alone : ∀ other ∈ between, other.isUserMessage = false
  attachments : ∃ attachments, protoAttachments pyRepr f.data = some attachments ∧
    attachments.Sublist [⟨"skill_selection", "", []⟩]
  ids : (skillIdsOf selection.data).len.isSome ∧ ∀ skillMatch, f.skillMatch = some skillMatch →
    (buildContext pyRepr files (skillIdsOf selection.data) skillMatch.dbSkillsMap).isSome

/-- Messages that match no skills can be read, and those that are selected are
undisturbed. -/
structure Clean (pyRepr : PyValue → String) (files : SkillFiles) (frames : List Received) :
    Prop where
  unmatched : ∀ f ∈ frames, f.isUserMessage = true → f.skillMatch = none → Readable pyRepr f
  matched : ∀ before f between selection after,
    frames = before ++ f :: (between ++ selection :: after) →
      f.isUserMessage = true → f.skillMatch.isSome → (∀ other ∈ between, other.closes = false) →
        selection.isSelection = true → Undisturbed pyRepr files f between selection

section Delivery

variable {pyRepr : PyValue → String} {files : SkillFiles} {sessionId : String} {s : ChatState}
  {f m : Received} {frames : List Received}

theorem Clean.tail (h : Clean pyRepr files (f :: frames)) : Clean pyRepr files frames where
  unmatched g hg := h.unmatched g (mem_cons_of_mem _ hg)
  matched before g between selection after heq :=
    h.matched (f :: before) g between selection after (by rw [heq, cons_append])

theorem Clean.skip (h : Clean pyRepr files (m :: f :: frames)) (hf : f.closes = false) :
    Clean pyRepr files (m :: frames) where
  unmatched g hg := by
    refine h.unmatched g ?_
    rcases mem_cons.mp hg with rfl | hg
    · exact mem_cons_self
    · exact mem_cons_of_mem _ (mem_cons_of_mem _ hg)
  matched before g between selection after heq hg hmatch hbetween hsel := by
    cases before with
    | cons first before =>
      have hrest := (List.cons.inj heq).2
      exact h.tail.tail.matched before g between selection after hrest hg hmatch hbetween
        hsel
    | nil =>
      obtain ⟨rfl, rfl⟩ := List.cons.inj heq
      have hall := h.matched [] m (f :: between) selection after rfl hg hmatch
        (forall_mem_cons.mpr ⟨hf, hbetween⟩) hsel
      exact ⟨fun other hother => hall.alone other (mem_cons_of_mem _ hother),
        hall.attachments, hall.ids⟩

theorem exists_selection (h : selected frames = true) :
    ∃ between selection after, frames = between ++ selection :: after ∧
      (∀ other ∈ between, other.closes = false) ∧ selection.isSelection = true := by
  induction frames with
  | nil => cases h
  | cons f frames ih =>
    unfold selected at h
    by_cases hf : f.closes = true
    · rw [if_pos hf] at h
      exact ⟨[], f, frames, rfl, fun _ hmem => absurd hmem not_mem_nil, h⟩
    · rw [if_neg hf] at h
      obtain ⟨between, selection, after, rfl, hbetween, hsel⟩ := ih h
      exact ⟨f :: between, selection, after, rfl,
        forall_mem_cons.mpr ⟨Bool.eq_false_iff.mpr hf, hbetween⟩, hsel⟩

theorem Clean.not_selected (h : Clean pyRepr files (m :: f :: frames))
    (hm : m.isUserMessage = true) (hmatch : m.skillMatch.isSome) (hf : f.isUserMessage = true)
    (hcloses : f.closes = false) : selected frames = false := by
  by_contra hselected
  obtain ⟨between, selection, after, rfl, hbetween, hsel⟩ :=
    exists_selection (Bool.of_not_eq_false hselected)
  have hall := h.matched [] m (f :: between) selection after rfl hm hmatch
    (forall_mem_cons.mpr ⟨hcloses, hbetween⟩) hsel
  have halone := hall.alone f mem_cons_self
  rw [hf] at halone
  cases halone

/-- The message that the slot holds, as the frame it came in. -/
inductive Waits (s : ChatState) : List Received → Prop where
  | empty (hpend : s.pending = none) : Waits s []
  | message (m : Received) (content : String) (skillMatch : SkillMatch)
      (hpend : s.pending = some ⟨content, skillMatch.dbSkillsMap⟩)
      (huser : m.isUserMessage = true) (hmatch : m.skillMatch = some skillMatch)
      (hcontent : contentOf m.data = .str content) : Waits s [m]

variable {next : ChatState} {waiting : List Received} {skillMatch : SkillMatch}

theorem Waits.congr (h : Waits s waiting) (hpend : next.pending = s.pending) :
    Waits next waiting := by
  cases h with
  | empty hempty => exact .empty (hpend.trans hempty)
  | message m content skillMatch hmsg huser hmatch hcontent =>
    exact .message m content skillMatch (hpend.trans hmsg) huser hmatch hcontent

theorem onFrame_userMessage (hf : f.isUserMessage = true) :
    onFrame pyRepr files sessionId s f = onUserMessage pyRepr sessionId s f := by
  have hkind : frameKind f.data = some .userMessage := of_decide_eq_true hf
  rw [onFrame, hkind]

theorem onFrame_selection (hf : f.isSelection = true) :
    onFrame pyRepr files sessionId s f = onSkillSelection pyRepr files sessionId s f := by
  have hkind : frameKind f.data = some .skillSelection := of_decide_eq_true hf
  rw [onFrame, hkind]

theorem onUserMessage_unmatched (hmatch : f.skillMatch = none) (h : Readable pyRepr f) :
    ∃ message, onUserMessage pyRepr sessionId s f =
        some (s.put sessionId (.userMessage message)) ∧ Carries pyRepr f.data message := by
  obtain ⟨hmatching, ⟨text, htext⟩, hlen, hattachments⟩ := h
  obtain ⟨size, hsize⟩ := Option.isSome_iff_exists.mp hlen
  obtain ⟨attachments, hattachments⟩ := Option.isSome_iff_exists.mp hattachments
  have hnone : f.matching = some none := by
    cases hf : f.matching with
    | none => rw [hf] at hmatching; cases hmatching
    | some found =>
      rw [Received.skillMatch, hf] at hmatch
      exact congrArg some hmatch
  refine ⟨⟨text, attachments⟩, ?_, ⟨"", text, htext, by simp⟩, attachments, hattachments,
    List.Sublist.refl _⟩
  have hlength : (PyValue.str text).len = some text.length := rfl
  simp [onUserMessage, htext, hlength, hsize, hnone, hattachments, protoString]

theorem onUserMessage_matched (hmatch : f.skillMatch = some skillMatch)
    (h : onUserMessage pyRepr sessionId s f = some next) :
    ∃ content, contentOf f.data = .str content ∧
      next.pending = some ⟨content, skillMatch.dbSkillsMap⟩ ∧ next.inputs = s.inputs := by
  have hfound : f.matching = some (some skillMatch) := Option.join_eq_some_iff.mp hmatch
  simp only [onUserMessage, hfound, Option.bind_eq_bind, Option.bind_eq_some_iff] at h
  obtain ⟨_, -, _, -, found, hsome, h⟩ := h
  cases hsome
  cases hcontent : contentOf f.data with
  | str content =>
    simp only [hcontent, ChatState.reply] at h
    split at h
    · cases h
      exact ⟨content, rfl, rfl, rfl⟩
    · cases h
  | _ => simp [hcontent] at h

theorem onSkillSelection_waiting {content : String} {between : List Received}
    (hpend : s.pending = some ⟨content, skillMatch.dbSkillsMap⟩)
    (hmatch : m.skillMatch = some skillMatch) (hcontent : contentOf m.data = .str content)
    (h : Undisturbed pyRepr files m between f) :
    ∃ message, onSkillSelection pyRepr files sessionId s f =
        some { s.put sessionId (.userMessage message) with pending := none } ∧
      Carries pyRepr m.data message := by
  obtain ⟨size, hsize⟩ := Option.isSome_iff_exists.mp h.ids.1
  obtain ⟨context, hcontext⟩ := Option.isSome_iff_exists.mp (h.ids.2 skillMatch hmatch)
  obtain ⟨attachments, hattachments, hsublist⟩ := h.attachments
  refine ⟨⟨if context ≠ "" then context ++ "\n\n---\n\n" ++ content else content,
    [⟨"skill_selection", "", []⟩]⟩, ?_, ?_, attachments, hattachments, hsublist⟩
  · have hmarker : [selectionMarker].mapM (protoAttachment pyRepr) =
        some [⟨"skill_selection", "", []⟩] := rfl
    simp only [onSkillSelection, hpend, hcontext, hsize, hmarker, Option.bind_eq_bind,
      Option.bind_some]
  · by_cases hempty : context = ""
    · exact ⟨"", content, hcontent, by simp [hempty]⟩
    · exact ⟨context ++ "\n\n---\n\n", content, hcontent, by simp [hempty]⟩

theorem onFrame_other (huser : f.isUserMessage = false) (hsel : f.isSelection = false)
    (h : onFrame pyRepr files sessionId s f = some next) :
    userMessages next.inputs = userMessages s.inputs ∧
      next.pending = if f.closes then none else s.pending := by
  have hkind := of_decide_eq_false huser
  have hkind' := of_decide_eq_false hsel
  unfold onFrame at h
  split at h
  · cases h
  · rename_i heq
    exact absurd heq hkind
  · rename_i heq
    exact absurd heq hkind'
  · rename_i heq
    cases h
    simp [ChatState.put, userMessages, ChatInput.userMessage?, Received.closes, heq]
  · rename_i heq
    have hcloses : f.closes = false := by simp [Received.closes, Received.isSelection, heq]
    simp only [onProxyResult, Option.bind_eq_bind, Option.bind_eq_some_iff] at h
    obtain ⟨_, -, _, -, _, -, _, -, h⟩ := h
    cases h
    simp [ChatState.put, userMessages, ChatInput.userMessage?, hcloses]
  · rename_i heq
    have hcloses : f.closes = false := by simp [Received.closes, Received.isSelection, heq]
    simp only [ChatState.reply] at h
    split at h
    · cases h
      simp [hcloses]
    · cases h

theorem onSkillSelection_empty (hpend : s.pending = none)
    (h : onSkillSelection pyRepr files sessionId s f = some next) :
    next.inputs = s.inputs ∧ next.pending = none := by
  simp only [onSkillSelection, hpend, ChatState.reply] at h
  split at h
  · cases h
    exact ⟨rfl, rfl⟩
  · cases h

theorem due_user (hf : f.isUserMessage = true) (hmatch : f.skillMatch = none) :
    due (f :: frames) = f.data :: due frames := by
  simp [due, hf, hmatch]

theorem due_other (hf : f.isUserMessage = false) : due (f :: frames) = due frames := by
  simp [due, hf]

theorem due_matched (hf : f.isUserMessage = true) (hmatch : f.skillMatch.isSome) :
    due (f :: frames) = if selected frames then f.data :: due frames else due frames := by
  have hsome : f.skillMatch.isNone = false := by
    obtain ⟨found, hfound⟩ := Option.isSome_iff_exists.mp hmatch
    rw [hfound]
    rfl
  simp [due, hf, hsome]

theorem selected_skip (hf : f.closes = false) : selected (f :: frames) = selected frames := by
  simp [selected, hf]

theorem due_waiting_skip (h : Waits s waiting) (huser : f.isUserMessage = false)
    (hcloses : f.closes = false) :
    due (waiting ++ f :: frames) = due (waiting ++ frames) := by
  cases h with
  | empty => exact due_other huser
  | message m content skillMatch hpend hm hmatch hcontent =>
    have hsome : m.skillMatch.isSome := by rw [hmatch]; rfl
    simp only [cons_append, nil_append, due_matched hm hsome, selected_skip hcloses,
      due_other huser]

/-- The messages that the loop has put on the stream from one state to another. -/
def Puts (pyRepr : PyValue → String) (messages : List PyValue) (s after : ChatState) : Prop :=
  ∃ more, userMessages after.inputs = userMessages s.inputs ++ more ∧
    List.Forall₂ (Carries pyRepr) messages more

theorem Puts.refl : Puts pyRepr [] s s := ⟨[], (append_nil _).symm, .nil⟩

variable {messages : List PyValue} {after : ChatState}

theorem Puts.later (h : Puts pyRepr messages next after)
    (hnext : userMessages next.inputs = userMessages s.inputs) :
    Puts pyRepr messages s after := by
  obtain ⟨more, hmore, hall⟩ := h
  exact ⟨more, by rw [hmore, hnext], hall⟩

theorem Puts.cons {data : PyValue} {message : UserMessage} (h : Puts pyRepr messages next after)
    (hnext : userMessages next.inputs = userMessages s.inputs ++ [message])
    (hcarries : Carries pyRepr data message) : Puts pyRepr (data :: messages) s after := by
  obtain ⟨more, hmore, hall⟩ := h
  exact ⟨message :: more, by rw [hmore, hnext, append_assoc]; rfl, .cons hcarries hall⟩

theorem userMessages_put (message : UserMessage) :
    userMessages (s.put sessionId (.userMessage message)).inputs =
      userMessages s.inputs ++ [message] := by
  simp [ChatState.put, userMessages, ChatInput.userMessage?]

theorem Clean.of_waiting (hwaits : Waits s waiting) (h : Clean pyRepr files (waiting ++ frames)) :
    Clean pyRepr files frames := by
  cases hwaits with
  | empty => exact h
  | message => exact h.tail

theorem closes_of_user (hf : f.isUserMessage = true) : f.closes = false := by
  have hkind : frameKind f.data = some .userMessage := of_decide_eq_true hf
  simp [Received.closes, Received.isSelection, hkind]

theorem user_of_selection (hf : f.isSelection = true) : f.isUserMessage = false := by
  have hkind : frameKind f.data = some .skillSelection := of_decide_eq_true hf
  simp [Received.isUserMessage, hkind]

theorem due_waiting (hm : m.isUserMessage = true) (hmatch : m.skillMatch = some skillMatch)
    (hselected : selected frames = false) :
    due (m :: frames) = due frames := by
  have hsome : m.skillMatch.isSome := by rw [hmatch]; rfl
  simp [due_matched hm hsome, hselected]

theorem Clean.undisturbed (h : Clean pyRepr files (m :: f :: frames)) (hm : m.isUserMessage = true)
    (hmatch : m.skillMatch = some skillMatch) (hf : f.isSelection = true) :
    Undisturbed pyRepr files m [] f :=
  h.matched [] m [] f frames rfl hm (by rw [hmatch]; rfl)
    (fun _ hmem => absurd hmem not_mem_nil) hf

theorem due_ended (hwaits : Waits s waiting) (hclean : Clean pyRepr files (waiting ++ [f]))
    (hended : onFrame pyRepr files sessionId s f = none) : due (waiting ++ [f]) = [] := by
  have hlast : due [f] = [] := by
    by_cases huser : f.isUserMessage = true
    · cases hmatch : f.skillMatch with
      | none =>
        have hreadable := (Clean.of_waiting hwaits hclean).unmatched f mem_cons_self huser
          hmatch
        obtain ⟨message, hput, -⟩ := onUserMessage_unmatched hmatch hreadable
        rw [onFrame_userMessage huser, hput] at hended
        cases hended
      | some skillMatch => exact due_waiting huser hmatch rfl
    · exact due_other (Bool.eq_false_iff.mpr huser)
  cases hwaits with
  | empty => exact hlast
  | message m content skillMatch hpend hm hmatch hcontent =>
    by_cases hsel : f.isSelection = true
    · obtain ⟨message, hput, -⟩ := onSkillSelection_waiting hpend hmatch hcontent
        (hclean.undisturbed hm hmatch hsel)
      rw [onFrame_selection hsel, hput] at hended
      cases hended
    · have hselected : selected [f] = false := by
        simp [selected, Bool.eq_false_iff.mpr hsel]
      exact (due_waiting hm hmatch hselected).trans hlast

/-- What comes after a frame, whatever message waits. -/
def Continues (pyRepr : PyValue → String) (files : SkillFiles) (next : ChatState)
    (rest : List Received) (after : ChatState) : Prop :=
  ∀ waiting, Waits next waiting → Clean pyRepr files (waiting ++ rest) →
    Puts pyRepr (due (waiting ++ rest)) next after

section Frame

variable {next after : ChatState} {rest waiting : List Received}

theorem Continues.unmatched (h : Continues pyRepr files next rest after) (hwaits : Waits s waiting)
    (hclean : Clean pyRepr files (waiting ++ f :: rest)) (huser : f.isUserMessage = true)
    (hmatch : f.skillMatch = none) (hstep : onUserMessage pyRepr sessionId s f = some next) :
    Puts pyRepr (due (waiting ++ f :: rest)) s after := by
  have hcloses := closes_of_user huser
  have hreadable := (Clean.of_waiting hwaits hclean).unmatched f mem_cons_self huser hmatch
  obtain ⟨message, hput, hcarries⟩ := onUserMessage_unmatched hmatch hreadable
  obtain rfl := Option.some.inj (hput.symm.trans hstep)
  have hwaits' : Waits (s.put sessionId (.userMessage message)) waiting := hwaits.congr rfl
  cases hwaits with
  | empty =>
    have hrest := h [] hwaits' hclean.tail
    rw [nil_append, due_user huser hmatch]
    exact hrest.cons (userMessages_put message) hcarries
  | message m content skillMatch hpend hm hmatched hcontent =>
    have hsome : m.skillMatch.isSome := by rw [hmatched]; rfl
    have hselected := Clean.not_selected hclean hm hsome huser hcloses
    have hrest := h [m] hwaits' (Clean.skip hclean hcloses)
    rw [singleton_append, due_waiting hm hmatched hselected] at hrest
    rw [singleton_append, due_waiting hm hmatched ((selected_skip hcloses).trans hselected),
      due_user huser hmatch]
    exact hrest.cons (userMessages_put message) hcarries

theorem Continues.matched (h : Continues pyRepr files next rest after) (hwaits : Waits s waiting)
    (hclean : Clean pyRepr files (waiting ++ f :: rest)) (huser : f.isUserMessage = true)
    (hmatch : f.skillMatch = some skillMatch)
    (hstep : onUserMessage pyRepr sessionId s f = some next) :
    Puts pyRepr (due (waiting ++ f :: rest)) s after := by
  have hcloses := closes_of_user huser
  obtain ⟨content, hcontent, hpend, hinputs⟩ := onUserMessage_matched hmatch hstep
  have hrest := h [f] (.message f content skillMatch hpend huser hmatch hcontent)
    (Clean.of_waiting hwaits hclean)
  have hfirst : due (waiting ++ f :: rest) = due (f :: rest) := by
    cases hwaits with
    | empty => rfl
    | message m content skillMatch hpend hm hmatched hcontent =>
      have hsome : m.skillMatch.isSome := by rw [hmatched]; rfl
      have hselected := Clean.not_selected hclean hm hsome huser hcloses
      exact due_waiting hm hmatched ((selected_skip hcloses).trans hselected)
  rw [hfirst]
  exact hrest.later (by rw [hinputs])

theorem Continues.selection (h : Continues pyRepr files next rest after)
    (hwaits : Waits s waiting) (hclean : Clean pyRepr files (waiting ++ f :: rest))
    (hsel : f.isSelection = true)
    (hstep : onSkillSelection pyRepr files sessionId s f = some next) :
    Puts pyRepr (due (waiting ++ f :: rest)) s after := by
  have huser := user_of_selection hsel
  cases hwaits with
  | empty hpend =>
    obtain ⟨hinputs, hnone⟩ := onSkillSelection_empty hpend hstep
    have hrest := h [] (.empty hnone) hclean.tail
    rw [nil_append, due_other huser]
    exact hrest.later (by rw [hinputs])
  | message m content skillMatch hpend hm hmatch hcontent =>
    have hsome : m.skillMatch.isSome := by rw [hmatch]; rfl
    have hcloses : f.closes = true := by simp [Received.closes, hsel]
    obtain ⟨message, hput, hcarries⟩ := onSkillSelection_waiting hpend hmatch hcontent
      (Clean.undisturbed hclean hm hmatch hsel)
    obtain rfl := Option.some.inj (hput.symm.trans hstep)
    have hrest := h [] (.empty rfl) hclean.tail.tail
    have hdue : due (m :: f :: rest) = m.data :: due rest := by
      simp [due_matched hm hsome, selected, hcloses, hsel, due_other huser]
    rw [singleton_append, hdue]
    exact hrest.cons (userMessages_put message) hcarries

theorem Continues.other (h : Continues pyRepr files next rest after) (hwaits : Waits s waiting)
    (hclean : Clean pyRepr files (waiting ++ f :: rest)) (huser : f.isUserMessage = false)
    (hsel : f.isSelection = false)
    (hstep : onFrame pyRepr files sessionId s f = some next) :
    Puts pyRepr (due (waiting ++ f :: rest)) s after := by
  obtain ⟨hinputs, hpend⟩ := onFrame_other huser hsel hstep
  by_cases hcloses : f.closes = true
  · -- A cancel: the message that waits is not due.
    rw [if_pos hcloses] at hpend
    have hrest := h [] (.empty hpend) (Clean.of_waiting hwaits hclean).tail
    have hdue : due (waiting ++ f :: rest) = due rest := by
      cases hwaits with
      | empty => exact due_other huser
      | message m content skillMatch hpend hm hmatch hcontent =>
        have hselected : selected (f :: rest) = false := by simp [selected, hcloses, hsel]
        exact (due_waiting hm hmatch hselected).trans (due_other huser)
    rw [hdue]
    exact hrest.later hinputs
  · have hopen := Bool.eq_false_iff.mpr hcloses
    rw [if_neg hcloses] at hpend
    have hskip : Clean pyRepr files (waiting ++ rest) := by
      cases hwaits with
      | empty => exact hclean.tail
      | message => exact Clean.skip hclean hopen
    have hrest := h waiting (hwaits.congr hpend) hskip
    rw [due_waiting_skip hwaits huser hopen]
    exact hrest.later hinputs

end Frame

theorem continues_wsChat (frames : List Received) (s : ChatState) :
    Continues pyRepr files s (readFrames pyRepr files sessionId s frames)
      (wsChat pyRepr files sessionId s frames) := by
  induction frames generalizing s with
  | nil =>
    intro waiting hwaits hclean
    cases hwaits with
    | empty => exact Puts.refl
    | message m content skillMatch hpend hm hmatch hcontent =>
      have hdue : due [m] = [] := due_waiting hm hmatch rfl
      simp only [readFrames, wsChat, append_nil, hdue]
      exact Puts.refl
  | cons f frames ih =>
    intro waiting hwaits hclean
    cases hstep : onFrame pyRepr files sessionId s f with
    | none =>
      simp only [readFrames, wsChat, hstep] at hclean ⊢
      rw [due_ended hwaits hclean hstep]
      exact Puts.refl
    | some next =>
      simp only [readFrames, wsChat, hstep] at hclean ⊢
      by_cases huser : f.isUserMessage = true
      · rw [onFrame_userMessage huser] at hstep
        cases hmatch : f.skillMatch with
        | none => exact (ih next).unmatched hwaits hclean huser hmatch hstep
        | some skillMatch => exact (ih next).matched hwaits hclean huser hmatch hstep
      · by_cases hsel : f.isSelection = true
        · rw [onFrame_selection hsel] at hstep
          exact (ih next).selection hwaits hclean hsel hstep
        · exact (ih next).other hwaits hclean (Bool.eq_false_iff.mpr huser)
            (Bool.eq_false_iff.mpr hsel) hstep

end Delivery

def noFiles : SkillFiles := ⟨fun _ => none, fun _ => none⟩

def matchedFrame (entries : List (String × PyValue)) : Received where
  data := .dict (("type", .str "user_message") :: entries)
  matching := some (some ⟨.list [], []⟩)
  sends := true

def emptySelection : Received where
  data := .dict [("type", .str "skill_selection"), ("skill_ids", .list [])]
  matching := none
  sends := true

def forkReport : List (String × PyValue) :=
  [("content", .str ""), ("context", .list [.dict
    [("source", .str "fork_summary"), ("content", .str "the index is missing")]])]

end DbClinic.Gateway
