import DbClinic.Lib.Transition
import DbClinic.Runtime.PersistenceFaults
import DbClinic.Runtime.Snapshot

/-!
Whether the session file follows the session in memory, over runs in which the
file system may refuse any step. A push that is refused leaves the file as it
was; a message is then taken back and a prompt entry is not. A save can be
refused after the old file was rotated away, or after the new one is in place.
-/

namespace DbClinic.Runtime

open Transition List

section Save

variable (faults : Faults) (session : Session) (file : FileText)

/-- The numbers of the session fit the snapshot. -/
def Renders : Prop :=
  session.createdAtMs < 2 ^ 63 ∧ session.updatedAtMs < 2 ^ 63 ∧
    ∀ compaction ∈ session.compaction, compaction.removedMessageCount < 2 ^ 63

/-- The file is large enough to be rotated, and known to be. -/
def Rotates : Prop :=
  faults.rotateMetadata = none ∧ ∃ content ∈ file, ROTATE_AFTER_BYTES ≤ textLen content

/-- The new file takes the place of the old one. -/
def Replaces : Prop :=
  faults.createDir = none ∧ faults.tempWrite = none ∧ faults.rename = none

def Cleans : Prop := faults.readDir = none ∧ faults.removeStale = none

/-- Nothing happens to the file. -/
def Refused : Prop :=
  ¬ Renders session ∨ (Rotates faults file ∧ faults.rotateRename ≠ none) ∨
    (¬ Rotates faults file ∧ ¬ Replaces faults)

def Lost : Prop :=
  Renders session ∧ Rotates faults file ∧ faults.rotateRename = none ∧ ¬ Replaces faults

/-- The snapshot is in place. -/
def Written : Prop :=
  Renders session ∧ ¬ (Rotates faults file ∧ faults.rotateRename ≠ none) ∧ Replaces faults

theorem not_refused_of_written (h : Written faults session file) :
    ¬ Refused faults session file := by
  unfold Refused
  unfold Written at h
  tauto

theorem refused_or_lost_or_written :
    Refused faults session file ∨ Lost faults session file ∨ Written faults session file := by
  unfold Refused Lost Written
  tauto

end Save

theorem renderJsonlSnapshot_error {session : Session} (h : ¬ Renders session) :
    ∃ e, session.renderJsonlSnapshot = .error e := by
  unfold Session.renderJsonlSnapshot Session.records Session.metaRecord i64FromNat
  by_cases hcreated : session.createdAtMs < 2 ^ 63
  · by_cases hupdated : session.updatedAtMs < 2 ^ 63
    · rw [if_pos hcreated, if_pos hupdated]
      cases hcompaction : session.compaction with
      | none => exact absurd ⟨hcreated, hupdated, by simp [hcompaction]⟩ h
      | some compaction =>
        have hremoved : ¬ compaction.removedMessageCount < 2 ^ 63 := by
          intro hlt
          exact h ⟨hcreated, hupdated, fun c hc => by
            rw [hcompaction] at hc
            cases hc
            exact hlt⟩
        have hrecord : ∃ e, compaction.toJsonlRecord = .error e := by
          unfold SessionCompaction.toJsonlRecord SessionCompaction.entries i64FromNat
          rw [if_neg hremoved]
          exact ⟨_, rfl⟩
        obtain ⟨e, he⟩ := hrecord
        refine ⟨e, ?_⟩
        rw [Option.mapM_some, he]
        rfl
    · rw [if_pos hcreated, if_neg hupdated]
      exact ⟨_, rfl⟩
  · rw [if_neg hcreated]
    exact ⟨_, rfl⟩

section Save

variable {faults : Faults} {session : Session} {file : FileText}

theorem rotate_idle (h : ¬ Rotates faults file) :
    Faulty.rotateSessionFileIfNeeded faults file = (file, .ok ()) := by
  unfold Faulty.rotateSessionFileIfNeeded
  split
  · rename_i content hmeta
    split
    · rfl
    · rename_i hlong
      exact absurd ⟨hmeta, content, rfl, Nat.le_of_not_lt hlong⟩ h
  · rfl

theorem rotate_attempted (h : Rotates faults file) :
    Faulty.rotateSessionFileIfNeeded faults file =
      match faults.rotateRename with
      | some e => (file, .error (.io e))
      | none => (none, .ok ()) := by
  obtain ⟨hmeta, content, hcontent, hlong⟩ := h
  rw [Option.mem_def] at hcontent
  subst hcontent
  unfold Faulty.rotateSessionFileIfNeeded
  rw [hmeta]
  dsimp only
  cases faults.rotateRename with
  | none => exact if_neg (Nat.not_lt.mpr hlong)
  | some e => exact if_neg (Nat.not_lt.mpr hlong)

theorem writeAtomic_replaces (h : Replaces faults) (contents : List TextUnit) :
    Faulty.writeAtomic faults file contents = (some contents, .ok ()) := by
  obtain ⟨hdir, htemp, hrename⟩ := h
  unfold Faulty.writeAtomic
  rw [hdir, htemp, hrename]

theorem writeAtomic_refused (h : ¬ Replaces faults) (contents : List TextUnit) :
    ∃ e, Faulty.writeAtomic faults file contents = (file, .error e) := by
  unfold Faulty.writeAtomic
  split
  · exact ⟨_, rfl⟩
  · rename_i hdir
    split
    · exact ⟨_, rfl⟩
    · rename_i htemp
      split
      · exact ⟨_, rfl⟩
      · rename_i hrename
        exact absurd ⟨hdir, htemp, hrename⟩ h

theorem saveToPath_refused (h : Refused faults session file) :
    ∃ e, Faulty.saveToPath faults session file = (file, .error e) := by
  unfold Faulty.saveToPath
  cases hsnap : session.renderJsonlSnapshot with
  | error e => exact ⟨e, rfl⟩
  | ok snapshot =>
    have hrenders : Renders session := by
      by_contra hnot
      obtain ⟨e, he⟩ := renderJsonlSnapshot_error hnot
      rw [hsnap] at he
      cases he
    rcases h with h | ⟨hrotates, hrename⟩ | ⟨hidle, hreplaces⟩
    · exact absurd hrenders h
    · rw [rotate_attempted hrotates]
      cases hrefused : faults.rotateRename with
      | none => exact absurd hrefused hrename
      | some e => exact ⟨_, rfl⟩
    · rw [rotate_idle hidle]
      obtain ⟨e, he⟩ := @writeAtomic_refused _ file hreplaces (snapshot.map .char)
      dsimp only
      rw [he]
      exact ⟨e, rfl⟩

variable {snapshot : List Char}

theorem saveToPath_lost (h : Lost faults session file)
    (hsnap : session.renderJsonlSnapshot = .ok snapshot) :
    ∃ e, Faulty.saveToPath faults session file = (none, .error e) := by
  obtain ⟨-, hrotates, hrename, hreplaces⟩ := h
  obtain ⟨e, he⟩ := @writeAtomic_refused _ none hreplaces (snapshot.map .char)
  unfold Faulty.saveToPath
  rw [hsnap]
  dsimp only
  rw [rotate_attempted hrotates, hrename]
  dsimp only
  rw [he]
  exact ⟨e, rfl⟩

theorem saveToPath_written (h : Written faults session file)
    (hsnap : session.renderJsonlSnapshot = .ok snapshot) :
    ∃ result, Faulty.saveToPath faults session file = (some (snapshot.map .char), result) ∧
      (Cleans faults → result = .ok ()) := by
  obtain ⟨-, hrotation, hreplaces⟩ := h
  have hrotate : ∃ file', Faulty.rotateSessionFileIfNeeded faults file = (file', .ok ()) := by
    by_cases hrotates : Rotates faults file
    · have hrename : faults.rotateRename = none := by
        by_contra hnot
        exact hrotation ⟨hrotates, hnot⟩
      refine ⟨none, ?_⟩
      rw [rotate_attempted hrotates, hrename]
    · exact ⟨file, rotate_idle hrotates⟩
  obtain ⟨file', hfile'⟩ := hrotate
  unfold Faulty.saveToPath
  rw [hsnap]
  dsimp only
  rw [hfile']
  dsimp only
  rw [writeAtomic_replaces hreplaces]
  dsimp only [Faulty.cleanupRotatedLogs]
  cases hread : faults.readDir with
  | some e =>
    refine ⟨_, rfl, fun hcleans => ?_⟩
    rw [hcleans.1] at hread
    cases hread
  | none => exact ⟨_, rfl, fun hcleans => by rw [hcleans.2]; rfl⟩

end Save

/-- An operation, with what the type of a message promises about its numbers. -/
inductive RecordOp where
  | pushMessage (message : ConversationMessage) (typed : message.Fits)
  | pushPromptEntry (text : String)
  | saveToPath

/-- One operation, with what the clock reads and what the file system refuses. -/
structure RecordAction where
  op : RecordOp
  now : Nat
  faults : Faults

structure Recording where
  session : Session
  file : FileText

namespace Recording

/-- The recording after one operation, whatever the operation returned. -/
def after (s : Recording) (a : RecordAction) : Recording :=
  match a.op with
  | .pushMessage message _ =>
    let r := Faulty.pushMessage a.faults s.session s.file message a.now
    ⟨r.1, r.2.1⟩
  | .pushPromptEntry text =>
    let r := Faulty.pushPromptEntry a.faults s.session s.file text a.now
    ⟨r.1, r.2.1⟩
  | .saveToPath => ⟨s.session, (Faulty.saveToPath a.faults s.session s.file).1⟩

def step (s : Recording) (a : RecordAction) : Option Recording := some (s.after a)

/-- `read_to_string` and `from_jsonl`. -/
def replay (content : List TextUnit) (now : Nat) (stamp : Stamp) : Except SessionError Session :=
  match content.mapM TextUnit.asChar with
  | none => .error (.io .invalidData)
  | some text => Session.fromJsonl text now stamp

/-- Nothing is in memory. -/
def Blank (session : Session) : Prop := session.messages = [] ∧ session.promptHistory = []

/-- The file gives back the messages and the prompt history in memory. -/
def Agrees (s : Recording) : Prop :=
  match s.file with
  | none => Blank s.session
  | some content => ∀ now stamp, ∃ r, replay content now stamp = .ok r ∧
      r.messages = s.session.messages ∧ r.promptHistory = s.session.promptHistory

/-- The session is written from scratch. -/
def Bootstraps (faults : Faults) (file : FileText) : Prop :=
  faults.pathExists ≠ none ∨
    ∀ content ∈ file, faults.metadata = none ∧ textLen content = 0

/-- The file is there, or there is nothing to keep. -/
def Kept (s : Recording) : Prop := s.file = none → Blank s.session

/-- A save that leaves no file in place leaves none that is missed. -/
def SaveOk (s : Recording) (faults : Faults) (session : Session) : Prop :=
  (Refused faults session s.file → s.Kept) ∧ (Lost faults session s.file → Blank s.session)

/-- The steps after which file and memory agree: no text is appended by halves,
no file is missed after a save, a message that was written is not taken back,
and a prompt entry is written. -/
def StepOk (s : Recording) (a : RecordAction) : Prop :=
  match a.op with
  | .pushMessage _ _ =>
    (Bootstraps a.faults s.file →
      s.SaveOk a.faults (s.session.touch a.now) ∧
        (Written a.faults (s.session.touch a.now) s.file → Cleans a.faults)) ∧
    (¬ Bootstraps a.faults s.file →
      a.faults.metadata ≠ none ∨ a.faults.openAppend ≠ none ∨
        ∀ torn ∈ a.faults.append, torn.1 = 0)
  | .pushPromptEntry _ =>
    a.now < 2 ^ 63 ∧
    (Bootstraps a.faults s.file → Written a.faults s.session s.file) ∧
    (¬ Bootstraps a.faults s.file →
      a.faults.metadata = none ∧ a.faults.openAppend = none ∧ a.faults.append = none)
  | .saveToPath => s.SaveOk a.faults s.session

/-- The file consists of whole records, and they give the messages and the
prompt history in memory. -/
def Whole (session : Session) (content : List TextUnit) : Prop :=
  ∃ values d, content = (Session.renderLines values).map TextUnit.char ∧ values ≠ [] ∧
    Session.decodeLines 1 (values.map JsonValue.render) .start = .ok d ∧
    d.messages = session.messages ∧ d.promptHistory = session.promptHistory

variable {s : Recording} {session : Session} {content : List TextUnit} {faults : Faults}
variable {now : Nat}

theorem Whole.agrees (hfile : s.file = some content) (h : Whole s.session content) : s.Agrees := by
  obtain ⟨values, d, rfl, -, hdecode, hmsgs, hprompts⟩ := h
  unfold Agrees
  rw [hfile]
  intro now stamp
  unfold replay Session.fromJsonl
  rw [mapM_asChar]
  dsimp only
  rw [lines_renderLines, hdecode]
  exact ⟨_, rfl, hmsgs, hprompts⟩

theorem whole_snapshot (h : session.Fits) {snapshot : List Char}
    (hsnap : session.renderJsonlSnapshot = .ok snapshot) :
    Whole session (snapshot.map .char) := by
  obtain ⟨values, hvals, hdecode⟩ := Session.decodeLines_records h
  unfold Session.renderJsonlSnapshot at hsnap
  rw [hvals] at hsnap
  cases hsnap
  refine ⟨values, session.decoded, rfl, ?_, hdecode, rfl, rfl⟩
  rintro rfl
  have hid := congrArg Session.Decoded.sessionId (Except.ok.inj hdecode)
  cases hid

variable {session' : Session} {message : ConversationMessage} {a : RecordAction}

theorem Whole.append (h : Whole session content) {record : JsonValue}
    {effect : Session.Decoded → Session.Decoded} (hreads : Session.Reads record effect)
    (heffect : ∀ d : Session.Decoded, d.messages = session.messages →
      d.promptHistory = session.promptHistory →
        (effect d).messages = session'.messages ∧
          (effect d).promptHistory = session'.promptHistory) :
    Whole session' (content ++ (Session.renderLines [record]).map TextUnit.char) := by
  obtain ⟨values, d, rfl, hvals, hdecode, hmsgs, hprompts⟩ := h
  obtain ⟨hmsgs', hprompts'⟩ := heffect d hmsgs hprompts
  refine ⟨values ++ [record], effect d, ?_, by simp, ?_, hmsgs', hprompts'⟩
  · rw [← map_append]
    simp [Session.renderLines]
  · rw [map_append, Session.decodeLines_append, hdecode, ok_bind]
    exact hreads _ d

theorem Whole.mono (h : Whole session content) (hmsgs : session'.messages = session.messages)
    (hprompts : session'.promptHistory = session.promptHistory) : Whole session' content := by
  obtain ⟨values, d, hcontent, hvals, hdecode, hd, hd'⟩ := h
  exact ⟨values, d, hcontent, hvals, hdecode, hd.trans hmsgs.symm, hd'.trans hprompts.symm⟩

/-- The clock reading apart the session fits its file, which is whole if it is
there. -/
structure Recorded (s : Recording) : Prop where
  fits : (s.session.touch 0).Fits
  path : s.session.persistencePath.isSome
  file : ∀ content ∈ s.file, Whole s.session content

/-- The file is whole, or there is nothing to keep. -/
structure Synced (s : Recording) : Prop extends Recorded s where
  kept : s.Kept

theorem Synced.agrees (h : s.Synced) : s.Agrees := by
  cases hfile : s.file with
  | none =>
    unfold Agrees
    rw [hfile]
    exact h.kept hfile
  | some content => exact (h.file content hfile).agrees hfile

theorem fits_of_renders (hfits : (session.touch 0).Fits) (h : Renders session) : session.Fits :=
  ⟨hfits.version, h.1, h.2.1, hfits.messages, hfits.compaction, hfits.promptHistory⟩

theorem synced_save (hfits : (session.touch 0).Fits) (hpath : session.persistencePath.isSome)
    (faults : Faults) (file : FileText) :
    (Refused faults session file ∧ ∃ e, Faulty.saveToPath faults session file = (file, .error e)) ∨
      (Lost faults session file ∧ ∃ e, Faulty.saveToPath faults session file = (none, .error e)) ∨
      (Written faults session file ∧ ∃ file' result,
        Faulty.saveToPath faults session file = (file', result) ∧ Synced ⟨session, file'⟩ ∧
          (Cleans faults → result = .ok ())) := by
  rcases refused_or_lost_or_written faults session file with h | h | h
  · exact .inl ⟨h, saveToPath_refused h⟩
  · obtain ⟨snapshot, hsnap, -⟩ := Session.fromJsonl_snapshot (fits_of_renders hfits h.1)
    exact .inr (.inl ⟨h, saveToPath_lost h hsnap⟩)
  · have hall := fits_of_renders hfits h.1
    obtain ⟨snapshot, hsnap, -⟩ := Session.fromJsonl_snapshot hall
    obtain ⟨result, hres, hclean⟩ := saveToPath_written h hsnap
    refine .inr (.inr ⟨h, _, result, hres, ⟨⟨hfits, hpath, ?_⟩, nofun⟩, hclean⟩)
    rintro content ⟨⟩
    exact whole_snapshot hall hsnap

section Append

variable {faults : Faults} {session : Session} {file : FileText} {record : JsonValue}

theorem appendPersisted_bootstraps (hpath : session.persistencePath.isSome)
    (h : Bootstraps faults file) : Faulty.appendPersisted faults session file record =
      Faulty.saveToPath faults session file := by
  obtain ⟨path, hpath⟩ := Option.isSome_iff_exists.mp hpath
  unfold Faulty.appendPersisted
  rw [hpath]
  dsimp only
  split
  · rename_i content hexists
    rcases h with h | h
    · exact absurd hexists h
    · obtain ⟨hmeta, hlen⟩ := h content rfl
      rw [hmeta]
      dsimp only
      rw [if_pos hlen]
  · rfl

theorem appendPersisted_appends (hpath : session.persistencePath.isSome)
    (h : ¬ Bootstraps faults file) : ∃ content, file = some content ∧
      Faulty.appendPersisted faults session file record =
        match faults.metadata, faults.openAppend, faults.append with
        | some e, _, _ => (file, .error (.io e))
        | none, some e, _ => (file, .error (.io e))
        | none, none, some (written, e) =>
          (some (content ++ ((Session.renderLines [record]).map TextUnit.char).take written),
            .error (.io e))
        | none, none, none =>
          (some (content ++ (Session.renderLines [record]).map TextUnit.char), .ok ()) := by
  obtain ⟨path, hpath⟩ := Option.isSome_iff_exists.mp hpath
  have hexists : faults.pathExists = none := by
    by_contra hnot
    exact h (.inl hnot)
  cases file with
  | none => exact absurd (.inr nofun) h
  | some content =>
    refine ⟨content, rfl, ?_⟩
    unfold Faulty.appendPersisted
    rw [hpath, hexists]
    dsimp only
    cases hmeta : faults.metadata with
    | some e => rfl
    | none =>
      have hlen : textLen content ≠ 0 := by
        intro hlen
        refine h (.inr fun content' hcontent' => ?_)
        cases hcontent'
        exact ⟨hmeta, hlen⟩
      dsimp only
      rw [if_neg hlen]
      cases faults.openAppend with
      | some e => rfl
      | none =>
        cases faults.append with
        | some torn => rfl
        | none => rfl

end Append

theorem Recorded.of_refused (h : s.Recorded) (hfits : (session.touch 0).Fits)
    (hpath : session.persistencePath.isSome) (hmsgs : session.messages = s.session.messages)
    (hprompts : session.promptHistory = s.session.promptHistory) (hkept : s.Kept) :
    Synced ⟨session, s.file⟩ := by
  refine ⟨⟨hfits, hpath, fun content hcontent => ?_⟩, fun hnone => ?_⟩
  · exact (h.file content hcontent).mono hmsgs hprompts
  · exact ⟨hmsgs.trans (hkept hnone).1, hprompts.trans (hkept hnone).2⟩

theorem synced_of_blank (hfits : (session.touch 0).Fits) (hpath : session.persistencePath.isSome)
    (hblank : Blank session) : Synced ⟨session, none⟩ :=
  ⟨⟨hfits, hpath, nofun⟩, fun _ => hblank⟩

theorem synced_after_save (h : s.Recorded) (hok : s.SaveOk faults s.session) :
    Synced ⟨s.session, (Faulty.saveToPath faults s.session s.file).1⟩ := by
  rcases synced_save h.fits h.path faults s.file with
    ⟨hrefused, e, he⟩ | ⟨hlost, e, he⟩ | ⟨-, file', result, hres, hsynced, -⟩
  · rw [he]
    exact h.of_refused h.fits h.path rfl rfl (hok.1 hrefused)
  · rw [he]
    exact synced_of_blank h.fits h.path (hok.2 hlost)
  · rw [hres]
    exact hsynced

theorem synced_after_message (h : s.Recorded) (typed : message.Fits)
    (hok : s.StepOk ⟨.pushMessage message typed, now, faults⟩) :
    (s.after ⟨.pushMessage message typed, now, faults⟩).Synced := by
  obtain ⟨hboot, happend⟩ := hok
  have htouched : ((s.session.touch now).touch 0).Fits := h.fits
  unfold after Faulty.pushMessage
  dsimp only
  generalize hpushed : ({ s.session.touch now with
    messages := (s.session.touch now).messages ++ [message] } : Session) = pushed
  have hmsgs : pushed.messages = s.session.messages ++ [message] := by
    rw [← hpushed]
    rfl
  have hprompts : pushed.promptHistory = s.session.promptHistory := by
    rw [← hpushed]
    rfl
  have hfits : (pushed.touch 0).Fits := by
    rw [← hpushed]
    refine ⟨h.fits.version, h.fits.createdAtMs, h.fits.updatedAtMs, fun m hm => ?_,
      h.fits.compaction, h.fits.promptHistory⟩
    rcases mem_append.mp hm with hm | hm
    · exact h.fits.messages m hm
    · rw [mem_singleton.mp hm]
      exact typed
  have hpath : pushed.persistencePath.isSome := by
    rw [← hpushed]
    exact h.path
  by_cases hb : Bootstraps faults s.file
  · obtain ⟨⟨hkept, hblank⟩, hclean⟩ := hboot hb
    rw [appendPersisted_bootstraps hpath hb]
    rcases synced_save hfits hpath faults s.file with
      ⟨hrefused, e, he⟩ | ⟨hlost, e, he⟩ | ⟨hwritten, file', result, hres, hsynced, hcleans⟩
    · rw [he]
      exact h.of_refused htouched h.path rfl rfl (hkept (by subst hpushed; exact hrefused))
    · rw [he]
      exact synced_of_blank htouched h.path (hblank (by subst hpushed; exact hlost))
    · rw [hres, hcleans (hclean (by subst hpushed; exact hwritten))]
      exact hsynced
  · obtain ⟨content, hfile, heq⟩ :=
      @appendPersisted_appends _ _ _ (messageRecord message) hpath hb
    have hkept : s.Kept := fun hnone => by rw [hnone] at hfile; cases hfile
    have hwhole := h.file content hfile
    have hspared := happend hb
    rw [heq]
    cases hmeta : faults.metadata with
    | some e => exact h.of_refused htouched h.path rfl rfl hkept
    | none =>
      cases hopen : faults.openAppend with
      | some e => exact h.of_refused htouched h.path rfl rfl hkept
      | none =>
        cases htorn : faults.append with
        | some torn =>
          obtain ⟨written, e⟩ := torn
          rcases hspared with hspared | hspared | hspared
          · exact absurd hmeta hspared
          · exact absurd hopen hspared
          · have hzero : written = 0 := hspared _ htorn
            subst hzero
            dsimp only
            rw [take_zero, append_nil, ← hfile]
            exact h.of_refused htouched h.path rfl rfl hkept
        | none =>
          refine ⟨⟨hfits, hpath, ?_⟩, nofun⟩
          rintro content' ⟨⟩
          refine hwhole.append (Session.reads_message typed) fun d hd hd' => ?_
          exact ⟨by rw [hmsgs, ← hd], by rw [hprompts, ← hd']⟩

theorem synced_after_prompt (h : s.Recorded) {text : String}
    (hok : s.StepOk ⟨.pushPromptEntry text, now, faults⟩) :
    (s.after ⟨.pushPromptEntry text, now, faults⟩).Synced := by
  obtain ⟨hnow, hboot, happend⟩ := hok
  have hentry : SessionPromptEntry.Fits ⟨now, text⟩ := hnow
  unfold after Faulty.pushPromptEntry
  dsimp only
  generalize hpushed : ({ s.session with
    promptHistory := s.session.promptHistory ++ [⟨now, text⟩] } : Session) = pushed
  have hmsgs : pushed.messages = s.session.messages := by
    rw [← hpushed]
  have hprompts : pushed.promptHistory = s.session.promptHistory ++ [⟨now, text⟩] := by
    rw [← hpushed]
  have hfits : (pushed.touch 0).Fits := by
    rw [← hpushed]
    refine ⟨h.fits.version, h.fits.createdAtMs, h.fits.updatedAtMs, h.fits.messages,
      h.fits.compaction, fun entry he => ?_⟩
    rcases mem_append.mp he with he | he
    · exact h.fits.promptHistory entry he
    · rw [mem_singleton.mp he]
      exact hentry
  have hpath : pushed.persistencePath.isSome := by
    rw [← hpushed]
    exact h.path
  by_cases hb : Bootstraps faults s.file
  · have hwritten : Written faults pushed s.file := by
      subst hpushed
      exact hboot hb
    rw [appendPersisted_bootstraps hpath hb]
    rcases synced_save hfits hpath faults s.file with
      ⟨hrefused, -⟩ | ⟨hlost, -⟩ | ⟨-, file', result, hres, hsynced, -⟩
    · exact absurd hrefused (not_refused_of_written _ _ _ hwritten)
    · exact absurd hwritten.2.2 hlost.2.2.2
    · rw [hres]
      exact hsynced
  · obtain ⟨content, hfile, heq⟩ :=
      @appendPersisted_appends _ _ _ (SessionPromptEntry.toJsonlRecord ⟨now, text⟩) hpath hb
    obtain ⟨hmeta, hopen, htorn⟩ := happend hb
    rw [heq, hmeta, hopen, htorn]
    refine ⟨⟨hfits, hpath, ?_⟩, nofun⟩
    rintro content' ⟨⟩
    refine (h.file content hfile).append (Session.reads_prompt hentry) fun d hd hd' => ?_
    exact ⟨by rw [hmsgs, ← hd], by rw [hprompts, ← hd']⟩

theorem synced_after (h : s.Recorded) (hok : s.StepOk a) :
    (s.after a).Synced := by
  obtain ⟨op, now, faults⟩ := a
  cases op with
  | pushMessage message typed => exact synced_after_message h typed hok
  | pushPromptEntry text => exact synced_after_prompt h hok
  | saveToPath => exact synced_after_save h hok

theorem meets_cons {rest : List RecordAction} (hok : s.StepOk a)
    (hrest : Meets step StepOk (s.after a) rest) :
    Meets step StepOk s (a :: rest) := by
  intro t ht
  rw [← Option.some.inj ht]
  exact ⟨hok, hrest⟩

/-- The run lemma: the file is absent at first, and after every operation of a
run whose operations meet their condition it agrees with the memory. -/
theorem persistence_agrees {session : Session} (hfits : (session.touch 0).Fits)
    (hpath : session.persistencePath.isSome) (a : RecordAction) (rest : List RecordAction)
    (hok : Meets step StepOk ⟨session, none⟩ (a :: rest)) :
    Along step Agrees ((⟨session, none⟩ : Recording).after a) rest := by
  obtain ⟨hfirst, hrest⟩ := hok _ rfl
  have hinit : (⟨session, none⟩ : Recording).Recorded := ⟨hfits, hpath, nofun⟩
  have hsynced := synced_after hinit hfirst
  have halong := hrest.along (I := Synced)
    (fun s a t h ht hok => by cases ht; exact synced_after h.toRecorded hok) hsynced
  exact halong.mono fun s h => h.agrees

def fresh : Session := (Session.new 5 ⟨5, 0⟩).withPersistencePath ["work", "session.jsonl"]

theorem fresh_fits : (fresh.touch 0).Fits where
  version := by decide
  createdAtMs := by decide
  updatedAtMs := by decide
  messages := nofun
  compaction := nofun
  promptHistory := nofun

theorem stepOk_message (hkept : s.Kept) (typed : message.Fits) (now : Nat)
    (refused : Option IoError) :
    s.StepOk ⟨.pushMessage message typed, now, { Faults.none with openAppend := refused }⟩ :=
  ⟨fun _ => ⟨⟨fun _ => hkept, fun hlost => absurd ⟨rfl, rfl, rfl⟩ hlost.2.2.2⟩,
    fun _ => ⟨rfl, rfl⟩⟩, fun _ => .inr (.inr nofun)⟩

theorem stepOk_prompt (hrenders : Renders s.session) (text : String) (hnow : now < 2 ^ 63) :
    s.StepOk ⟨.pushPromptEntry text, now, .none⟩ :=
  ⟨hnow, fun _ => ⟨hrenders, fun hrefused => hrefused.2 rfl, rfl, rfl, rfl⟩,
    fun _ => ⟨rfl, rfl, rfl⟩⟩

/-- A prompt entry, a message, and a second one whose append is refused. -/
theorem persistence_agrees_fresh :
    Along step Agrees ((⟨fresh, none⟩ : Recording).after ⟨.pushPromptEntry "one", 6, .none⟩)
      [⟨.pushMessage (.userText "two") (ConversationMessage.userText_fits "two"), 7, .none⟩,
        ⟨.pushMessage (.userText "three") (ConversationMessage.userText_fits "three"), 8,
          { Faults.none with openAppend := some .notFound }⟩] := by
  have hrenders : Renders fresh := ⟨by decide, by decide, nofun⟩
  have hinit : (⟨fresh, none⟩ : Recording).Recorded := ⟨fresh_fits, rfl, nofun⟩
  have hprompt : (⟨fresh, none⟩ : Recording).StepOk ⟨.pushPromptEntry "one", 6, .none⟩ :=
    stepOk_prompt hrenders "one" (by decide)
  have hfirst := synced_after hinit hprompt
  have hmsg := stepOk_message hfirst.kept (ConversationMessage.userText_fits "two") 7 none
  have hsecond := synced_after hfirst.toRecorded hmsg
  have hlast := stepOk_message hsecond.kept (ConversationMessage.userText_fits "three") 8
  exact persistence_agrees fresh_fits rfl _ _
    (meets_cons hprompt (meets_cons hmsg (meets_cons (hlast _) trivial)))

/-- A prompt entry whose file could not be made stays in memory alone. -/
theorem refused_prompt_disagrees :
    ¬ ((⟨fresh, none⟩ : Recording).after ⟨.pushPromptEntry "one", 6,
      { Faults.none with createDir := some .notFound }⟩).Agrees := by
  rintro ⟨-, hprompts⟩
  cases hprompts

end Recording

end DbClinic.Runtime
