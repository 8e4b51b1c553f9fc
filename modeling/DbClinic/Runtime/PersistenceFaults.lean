import DbClinic.Runtime.SessionFile

/-!
Incremental persistence on a file system whose steps may each be refused. Only
the session's own file counts: its text, or that it is absent. What the other
steps do (the directories, the temporary file, the rotated copies) shows as
success or refusal. The operations on a whole file tree are such operations,
with the refusals the shape of the tree causes.
-/

namespace DbClinic.Runtime

open List

abbrev FileText := Option (List TextUnit)

def textLen (content : List TextUnit) : Nat := (content.map TextUnit.size).sum

/-- What the file system refuses during one operation, step by step. A refused
append may have written a part of its text. -/
structure Faults where
  pathExists : Option IoError
  metadata : Option IoError
  rotateMetadata : Option IoError
  rotateRename : Option IoError
  createDir : Option IoError
  tempWrite : Option IoError
  rename : Option IoError
  readDir : Option IoError
  removeStale : Option IoError
  openAppend : Option IoError
  append : Option (Nat × IoError)
  deriving DecidableEq

def Faults.none : Faults :=
  ⟨.none, .none, .none, .none, .none, .none, .none, .none, .none, .none, .none⟩

/-- A step with nothing to return: refused with its error, or done. -/
def refusal : Option IoError → Except SessionError Unit
  | some e => .error (.io e)
  | none => .ok ()

namespace Faulty

variable (faults : Faults)

/-- `rotate_session_file_if_needed`. A file whose length is unknown is left. -/
def rotateSessionFileIfNeeded (file : FileText) : FileText × Except SessionError Unit :=
  match faults.rotateMetadata, file with
  | none, some content =>
    if textLen content < ROTATE_AFTER_BYTES then (some content, .ok ())
    else
      match faults.rotateRename with
      | some e => (some content, .error (.io e))
      | none => (none, .ok ())
  | _, file => (file, .ok ())

/-- `write_atomic`: nothing happens to the file before the last rename. -/
def writeAtomic (file : FileText) (contents : List TextUnit) :
    FileText × Except SessionError Unit :=
  match faults.createDir with
  | some e => (file, .error (.io e))
  | none =>
    match faults.tempWrite with
    | some e => (file, .error (.io e))
    | none =>
      match faults.rename with
      | some e => (file, .error (.io e))
      | none => (some contents, .ok ())

/-- `cleanup_rotated_logs`. -/
def cleanupRotatedLogs (file : FileText) : FileText × Except SessionError Unit :=
  match faults.readDir with
  | some e => (file, .error (.io e))
  | none => (file, refusal faults.removeStale)

def saveToPath (session : Session) (file : FileText) : FileText × Except SessionError Unit :=
  match session.renderJsonlSnapshot with
  | .error e => (file, .error e)
  | .ok snapshot =>
    match rotateSessionFileIfNeeded faults file with
    | (file₁, .error e) => (file₁, .error e)
    | (file₁, .ok ()) =>
      match writeAtomic faults file₁ (snapshot.map .char) with
      | (file₂, .error e) => (file₂, .error e)
      | (file₂, .ok ()) => cleanupRotatedLogs faults file₂

/-- `append_persisted_message` and `append_persisted_prompt_entry`. -/
def appendPersisted (session : Session) (file : FileText) (record : JsonValue) :
    FileText × Except SessionError Unit :=
  match session.persistencePath with
  | none => (file, .ok ())
  | some _ =>
    match faults.pathExists, file with
    | none, some content =>
      match faults.metadata with
      | some e => (some content, .error (.io e))
      | none =>
        if textLen content = 0 then saveToPath faults session (some content)
        else
          match faults.openAppend with
          | some e => (some content, .error (.io e))
          | none =>
            let line := (Session.renderLines [record]).map TextUnit.char
            match faults.append with
            | some (written, e) => (some (content ++ line.take written), .error (.io e))
            | none => (some (content ++ line), .ok ())
    | _, file => saveToPath faults session file

def pushMessage (session : Session) (file : FileText) (message : ConversationMessage)
    (now : Nat) : Session × FileText × Except SessionError Unit :=
  let touched := session.touch now
  let pushed := { touched with messages := touched.messages ++ [message] }
  match appendPersisted faults pushed file (messageRecord message) with
  | (file', .ok ()) => (pushed, file', .ok ())
  | (file', .error e) => (touched, file', .error e)

def pushPromptEntry (session : Session) (file : FileText) (text : String)
    (timestampMs : Nat) : Session × FileText × Except SessionError Unit :=
  let entry : SessionPromptEntry := ⟨timestampMs, text⟩
  let pushed := { session with promptHistory := session.promptHistory ++ [entry] }
  (pushed, appendPersisted faults pushed file entry.toJsonlRecord)

end Faulty

variable {path : Path} {t : SessionTree}

theorem withFileName_ne {name : String} (hpath : path ≠ []) (h : name ≠ fileName path) :
    withFileName path name ≠ path := by
  intro heq
  have hlast := congrArg List.getLast? heq
  unfold withFileName at hlast
  rw [getLast?_append] at hlast
  obtain ⟨last, hsome⟩ := Option.isSome_iff_exists.mp (getLast?_isSome.mpr hpath)
  unfold fileName at h
  rw [hsome] at h hlast
  simp only [getLast?_singleton, Option.some_or, Option.some.injEq] at hlast
  exact h hlast

theorem temporaryPathFor_ne (hpath : path ≠ []) (stamp : Stamp) :
    temporaryPathFor path stamp ≠ path := by
  refine withFileName_ne hpath fun heq => ?_
  have hlen := congrArg String.length heq
  simp only [String.length_append] at hlen
  have htmp : ".tmp-".length = 5 := rfl
  omega

theorem rotatedLogPath_ne (hpath : path ≠ []) (millis : Nat) :
    rotatedLogPath path millis ≠ path := by
  refine withFileName_ne hpath fun heq => ?_
  generalize fileName path = name at heq
  have hstem : Path.stem (Path.stem name ++ ".rot-" ++ toString millis ++ "." ++ "jsonl") =
      Path.stem name ++ ".rot-" ++ toString millis := by
    refine Path.stem_append ?_ (by decide)
    intro hempty
    have hlen := congrArg String.length hempty
    simp only [String.length_append] at hlen
    have hrot : ".rot-".length = 5 := rfl
    have hzero : "".length = 0 := rfl
    omega
  have hjsonl : ".jsonl" = "." ++ "jsonl" := rfl
  rw [hjsonl, ← String.append_assoc] at heq
  rw [heq] at hstem
  have hlen := congrArg String.length hstem
  simp only [String.length_append] at hlen
  have hrot : ".rot-".length = 5 := rfl
  omega

theorem isRotatedName_self (name : String) : isRotatedName (Path.stem name) name = false := by
  by_contra hrotated
  unfold isRotatedName at hrotated
  rw [Bool.not_eq_false, Bool.and_eq_true, isPrefixOf_iff_prefix] at hrotated
  obtain ⟨hprefixed, hextension⟩ := hrotated
  split at hextension
  · rename_i ext hext
    rw [decide_eq_true_eq] at hextension
    have hname := Path.eq_of_extension hext
    generalize Path.stem name = base at hprefixed hname
    subst hname
    have hrest : "rot-".toList <+: ext.toList := by
      simpa [append_assoc, prefix_append_right_inj] using hprefixed
    obtain ⟨rest, hrest⟩ := hrest
    rw [← hrest, map_append] at hextension
    cases hextension
  · cases hextension

theorem rotated_ne (hpath : path ≠ []) {name : String}
    (hname : isRotatedName (Path.stem (fileName path)) name = true) :
    withFileName path name ≠ path := by
  refine withFileName_ne hpath ?_
  rintro rfl
  rw [isRotatedName_self] at hname
  cases hname

theorem rotatedPaths_ne (hpath : path ≠ []) {p : Path} (h : p ∈ rotatedPaths t path) :
    p ≠ path := by
  unfold rotatedPaths at h
  rw [mem_insertionSort, mem_map] at h
  obtain ⟨name, hname, rfl⟩ := h
  exact rotated_ne hpath (mem_filter.mp hname).2

def contentAt (t : SessionTree) (path : Path) : FileText :=
  (t.fileAt path).map SessionFile.content

/-- What a tree operation leaves at a path, and its result. -/
def outcomeAt (path : Path) (r : FileOutcome Unit) : FileText × Except SessionError Unit :=
  (contentAt r.1 path, r.2)

theorem contentAt_congr {t' : SessionTree} (h : t'.get path = t.get path) :
    contentAt t' path = contentAt t path := by
  unfold contentAt FileTree.fileAt
  rw [h]

theorem contentAt_of_file {file : SessionFile} (h : t.get path = some (.file file)) :
    contentAt t path = some file.content := by
  unfold contentAt FileTree.fileAt
  rw [h]
  rfl

theorem contentAt_of_absent (h : t.get path = none) :
    contentAt t path = none := by
  unfold contentAt FileTree.fileAt
  rw [h]
  rfl

section Simulation

variable {path : Path}

theorem rotate_simulated (hpath : path ≠ []) (t : SessionTree) (millis : Nat) :
    ∃ refused, ∀ faults : Faults, faults.rotateMetadata = none → faults.rotateRename = refused →
      Faulty.rotateSessionFileIfNeeded faults (contentAt t path) =
        outcomeAt path (rotateSessionFileIfNeeded t path millis) := by
  unfold rotateSessionFileIfNeeded
  cases hfile : t.fileAt path with
  | none =>
    refine ⟨none, fun faults hmeta _ => ?_⟩
    have habsent : contentAt t path = none := by unfold contentAt; rw [hfile]; rfl
    unfold Faulty.rotateSessionFileIfNeeded outcomeAt
    rw [hmeta, habsent]
  | some file =>
    have hcontent : contentAt t path = some file.content := by unfold contentAt; rw [hfile]; rfl
    dsimp only
    by_cases hshort : file.len < ROTATE_AFTER_BYTES
    · refine ⟨none, fun faults hmeta _ => ?_⟩
      have hlen : textLen file.content < ROTATE_AFTER_BYTES := hshort
      unfold Faulty.rotateSessionFileIfNeeded outcomeAt
      rw [hmeta, hcontent, if_pos hshort, hcontent]
      dsimp only
      rw [if_pos hlen]
    · have hlen : ¬ textLen file.content < ROTATE_AFTER_BYTES := hshort
      rw [if_neg hshort]
      cases hrename : t.rename path (rotatedLogPath path millis) with
      | error e =>
        refine ⟨some e, fun faults hmeta hrefused => ?_⟩
        unfold Faulty.rotateSessionFileIfNeeded outcomeAt
        rw [hmeta, hcontent, hrefused]
        dsimp only
        rw [if_neg hlen]
      | ok t' =>
        refine ⟨none, fun faults hmeta hrefused => ?_⟩
        obtain ⟨data, -, hget⟩ := FileTree.get_of_rename hrename
        have habsent : contentAt t' path = none := by
          apply contentAt_of_absent
          rw [hget, if_neg (rotatedLogPath_ne hpath millis).symm, if_pos rfl]
        unfold Faulty.rotateSessionFileIfNeeded outcomeAt
        rw [hmeta, hcontent, hrefused]
        dsimp only
        rw [if_neg hlen, habsent]

theorem writeAtomic_simulated (hpath : path ≠ []) (t : SessionTree)
    (contents : List TextUnit) (temp : Stamp) (time : Nat) :
    ∃ dir write rename, ∀ faults : Faults, faults.createDir = dir → faults.tempWrite = write →
      faults.rename = rename →
        Faulty.writeAtomic faults (contentAt t path) contents =
          outcomeAt path (writeAtomic t path contents temp time) := by
  unfold writeAtomic
  cases hmade : t.createDirAll path.dropLast with
  | error e =>
    refine ⟨some e, none, none, fun faults hdir _ _ => ?_⟩
    unfold Faulty.writeAtomic outcomeAt
    rw [hdir]
  | ok made =>
    have hmadeAt : contentAt made path = contentAt t path := by
      apply contentAt_congr
      rw [FileTree.get_of_createDirAll hmade, if_neg]
      intro hprefixed
      have hlen := hprefixed.length_le
      have hpos := length_pos_iff.mpr hpath
      rw [length_dropLast] at hlen
      omega
    dsimp only
    cases hwritten : made.writeFile (temporaryPathFor path temp) ⟨contents, time⟩ with
    | error e =>
      refine ⟨none, some e, none, fun faults hdir hwrite _ => ?_⟩
      unfold Faulty.writeAtomic outcomeAt
      rw [hdir, hwrite]
      dsimp only
      rw [hmadeAt]
    | ok written =>
      have hwrittenAt : contentAt written path = contentAt t path := by
        rw [← hmadeAt]
        apply contentAt_congr
        rw [FileTree.get_of_writeFile hwritten, if_neg (temporaryPathFor_ne hpath temp).symm]
      dsimp only
      cases hrenamed : written.rename (temporaryPathFor path temp) path with
      | error e =>
        refine ⟨none, none, some e, fun faults hdir hwrite hrename => ?_⟩
        unfold Faulty.writeAtomic outcomeAt
        rw [hdir, hwrite, hrename]
        dsimp only
        rw [hwrittenAt]
      | ok renamed =>
        refine ⟨none, none, none, fun faults hdir hwrite hrename => ?_⟩
        obtain ⟨data, hdata, hget⟩ := FileTree.get_of_rename hrenamed
        rw [FileTree.get_of_writeFile hwritten, if_pos rfl] at hdata
        cases hdata
        have hrenamedAt : contentAt renamed path = some contents :=
          contentAt_of_file (by rw [hget, if_pos rfl])
        unfold Faulty.writeAtomic outcomeAt
        rw [hdir, hwrite, hrename]
        dsimp only
        rw [hrenamedAt]

theorem removeFiles_elsewhere {paths : List Path} (h : ∀ p ∈ paths, p ≠ path) :
    contentAt (removeFiles t paths).1 path = contentAt t path := by
  induction paths generalizing t with
  | nil => rfl
  | cons p rest ih =>
    unfold removeFiles
    cases hremoved : t.removeFile p with
    | error e => rfl
    | ok t' =>
      dsimp only
      rw [ih fun q hq => h q (mem_cons_of_mem _ hq)]
      apply contentAt_congr
      rw [FileTree.get_of_removeFile hremoved, if_neg (h p mem_cons_self).symm]

theorem removeFiles_result (t : SessionTree) (paths : List Path) :
    ∃ refused, (removeFiles t paths).2 = refusal refused := by
  induction paths generalizing t with
  | nil => exact ⟨none, rfl⟩
  | cons p rest ih =>
    unfold removeFiles
    cases t.removeFile p with
    | error e => exact ⟨some e, rfl⟩
    | ok t' => exact ih t'

theorem cleanup_simulated (hpath : path ≠ []) (t : SessionTree) : ∃ refused, ∀ faults : Faults,
    faults.readDir = none → faults.removeStale = refused →
      Faulty.cleanupRotatedLogs faults (contentAt t path) =
        outcomeAt path (cleanupRotatedLogs t path) := by
  have hkeep : contentAt (cleanupRotatedLogs t path).1 path = contentAt t path := by
    refine removeFiles_elsewhere fun p hp => ?_
    exact rotatedPaths_ne hpath (mem_of_mem_take hp)
  obtain ⟨refused, hrefused⟩ : ∃ refused, (cleanupRotatedLogs t path).2 = refusal refused :=
    removeFiles_result _ _
  refine ⟨refused, fun faults hread hremove => ?_⟩
  unfold Faulty.cleanupRotatedLogs outcomeAt
  rw [hread, hremove, hkeep, hrefused]

theorem saveToPath_simulated (hpath : path ≠ []) (session : Session) (t : SessionTree)
    (stamps : SaveStamps) : ∃ faults : Faults, faults.pathExists = none ∧
      faults.metadata = none ∧ faults.openAppend = none ∧ faults.append = none ∧
      Faulty.saveToPath faults session (contentAt t path) =
        outcomeAt path (session.saveToPath t path stamps) := by
  obtain ⟨rotation, hrotate⟩ := rotate_simulated hpath t stamps.rotated
  unfold Session.saveToPath
  cases hsnap : session.renderJsonlSnapshot with
  | error e =>
    refine ⟨Faults.none, rfl, rfl, rfl, rfl, ?_⟩
    unfold Faulty.saveToPath
    rw [hsnap]
    rfl
  | ok snapshot =>
    dsimp only
    rcases hrotated : rotateSessionFileIfNeeded t path stamps.rotated with ⟨t₁, result⟩
    rw [hrotated] at hrotate
    cases result with
    | error e =>
      refine ⟨{ Faults.none with rotateRename := rotation }, rfl, rfl, rfl, rfl, ?_⟩
      unfold Faulty.saveToPath
      rw [hsnap]
      dsimp only
      rw [hrotate _ rfl rfl]
      rfl
    | ok _ =>
      obtain ⟨dir, write, rename, hwrite⟩ := writeAtomic_simulated hpath t₁
        (snapshot.map .char) stamps.temp stamps.written
      dsimp only
      rcases hwritten : writeAtomic t₁ path (snapshot.map .char) stamps.temp
        stamps.written with ⟨t₂, result⟩
      rw [hwritten] at hwrite
      obtain ⟨stale, hclean⟩ := cleanup_simulated hpath t₂
      refine ⟨{ Faults.none with rotateRename := rotation, createDir := dir, tempWrite := write
                                 rename := rename, removeStale := stale },
        rfl, rfl, rfl, rfl, ?_⟩
      unfold Faulty.saveToPath
      rw [hsnap]
      dsimp only
      rw [hrotate _ rfl rfl]
      dsimp only [outcomeAt]
      rw [hwrite _ rfl rfl rfl]
      cases result with
      | error e => rfl
      | ok _ => exact hclean _ rfl rfl

variable {session : Session}

theorem appendPersisted_simulated (hsession : session.persistencePath = some path)
    (hpath : path ≠ []) (t : SessionTree) (hdir : t.get path ≠ some .dir) (record : JsonValue)
    (stamps : SaveStamps) :
    ∃ faults : Faults,
      Faulty.appendPersisted faults session (contentAt t path) record =
        outcomeAt path (session.appendPersisted t record stamps) := by
  unfold Session.appendPersisted Faulty.appendPersisted
  rw [hsession]
  dsimp only
  obtain ⟨faults, hexists, hmeta, hopen, happend, hsave⟩ :=
    saveToPath_simulated hpath session t stamps
  cases hnode : t.get path with
  | none =>
    refine ⟨faults, ?_⟩
    rw [contentAt_of_absent hnode, hexists] at *
    exact hsave
  | some node =>
    cases node with
    | dir => exact absurd hnode hdir
    | file file =>
      have hcontent := contentAt_of_file hnode
      have hlen : textLen file.content = file.len := rfl
      rw [hcontent] at hsave ⊢
      by_cases hempty : file.len = 0
      · refine ⟨faults, ?_⟩
        rw [hexists, hmeta]
        dsimp only
        rw [hlen, if_pos hempty, if_pos hempty]
        exact hsave
      · dsimp only
        rw [if_neg hempty]
        unfold writeText
        cases hwrite : t.writeFile path ⟨file.content ++
          (Session.renderLines [record]).map .char, stamps.written⟩ with
        | error e =>
          refine ⟨{ Faults.none with openAppend := some e }, ?_⟩
          dsimp only [Faults.none]
          rw [hlen, if_neg hempty]
          unfold outcomeAt
          rw [hcontent]
        | ok t' =>
          refine ⟨Faults.none, ?_⟩
          have hcontent' := contentAt_of_file
            ((FileTree.get_of_writeFile hwrite path).trans (if_pos rfl))
          dsimp only [Faults.none]
          rw [hlen, if_neg hempty]
          unfold outcomeAt
          rw [hcontent']

theorem pushMessage_simulated (hsession : session.persistencePath = some path) (hpath : path ≠ [])
    (t : SessionTree) (hdir : t.get path ≠ some .dir) (message : ConversationMessage) (now : Nat)
    (stamps : SaveStamps) :
    ∃ faults : Faults, Faulty.pushMessage faults session (contentAt t path) message now =
      ((session.pushMessage t message now stamps).1,
        outcomeAt path (session.pushMessage t message now stamps).2) := by
  unfold Session.pushMessage Faulty.pushMessage
  dsimp only
  generalize hpushed : ({ session.touch now with
    messages := (session.touch now).messages ++ [message] } : Session) = pushed
  have hpushedPath : pushed.persistencePath = some path := by
    rw [← hpushed]
    exact hsession
  obtain ⟨faults, happend⟩ :=
    appendPersisted_simulated hpushedPath hpath t hdir (messageRecord message) stamps
  refine ⟨faults, ?_⟩
  rw [happend]
  rcases pushed.appendPersisted t (messageRecord message) stamps with ⟨t', result⟩
  cases result <;> rfl

theorem pushPromptEntry_simulated (hsession : session.persistencePath = some path)
    (hpath : path ≠ []) (t : SessionTree) (hdir : t.get path ≠ some .dir) (text : String)
    (timestampMs : Nat) (stamps : SaveStamps) :
    ∃ faults : Faults, Faulty.pushPromptEntry faults session (contentAt t path) text timestampMs =
      ((session.pushPromptEntry t text timestampMs stamps).1,
        outcomeAt path (session.pushPromptEntry t text timestampMs stamps).2) := by
  have hpushed : ({ session with
      promptHistory := session.promptHistory ++ [⟨timestampMs, text⟩] } : Session).persistencePath =
        some path := hsession
  obtain ⟨faults, happend⟩ := appendPersisted_simulated hpushed hpath t hdir
    (SessionPromptEntry.toJsonlRecord ⟨timestampMs, text⟩) stamps
  refine ⟨faults, ?_⟩
  unfold Session.pushPromptEntry Faulty.pushPromptEntry
  dsimp only
  rw [happend]

end Simulation

end DbClinic.Runtime
