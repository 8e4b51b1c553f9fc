import DbClinic.Runtime.RecordedMessages
import DbClinic.Server.Wired

/-!
What a resume does to a session file that cannot be loaded. The fresh session
the resume falls back to is saved over the path: a short file is replaced, a
long one is renamed first, and the clean-up after the save may remove its copy
again. The file survives exactly when one of these steps does not happen.
-/

namespace DbClinic.Server

open DbClinic.Runtime Persistence

/-- The file at a path is so long that a save renames it first. -/
def Oversized (t : SessionTree) (path : Path) : Prop :=
  ∃ file, t.fileAt path = some file ∧ ROTATE_AFTER_BYTES ≤ file.len

/-- The fresh session of a resume ends up at the path: its times fit a JSON
number, and no directory is in the way of the rotation, if there is one, and of
both temporary files. After a rotation the bootstrap of the file tries again
when the first save could not write. -/
def Overwrites (t : SessionTree) (path : Path) (stamps : CommandStamps) : Prop :=
  stamps.now < 2 ^ 63 ∧
    ((¬ Oversized t path ∧ t.get (temporaryPathFor path stamps.save.temp) ≠ some .dir) ∨
      (Oversized t path ∧ t.get (rotatedLogPath path stamps.save.rotated) ≠ some .dir ∧
        (t.get (temporaryPathFor path stamps.save.temp) ≠ some .dir ∨
          t.get (temporaryPathFor path stamps.bootstrap.temp) ≠ some .dir)))

def CopyKept (rotated : SessionTree) (path : Path) (messages : List ConversationMessage) :
    Prop :=
  ∃ name, isRotatedName (Path.stem (fileName path)) name = true ∧
    withFileName path name ∉ staleCopies rotated path ∧
    messages.Sublist (messagesAt rotated (withFileName path name))

/-- The disk after a resume without a live handle. -/
def resumedDisk (disk : SessionTree) (req : ResumeRequest) (stamps : CommandStamps) :
    SessionTree :=
  Kernel.bootstrapFile (Kernel.resumedSession disk req stamps).2
    (Kernel.resumedSession disk req stamps).1 stamps.bootstrap

/-- The file loads, or records no message, or is not overwritten, or a rotated
copy of it is left: the copy the rotation makes or an older one. -/
def RecoverySpares (disk : SessionTree) (req : ResumeRequest) (stamps : CommandStamps) : Prop :=
  let path := Kernel.resumePath req
  let t := Kernel.makeDir disk (Kernel.resumeDir req)
  (∃ session, Kernel.loadRequested disk req stamps = .ok session) ∨
    messagesAt disk path = [] ∨ ¬ Overwrites t path stamps ∨
    CopyKept (rotateSessionFileIfNeeded t path stamps.save.rotated).1 path (messagesAt disk path)

variable {path : Path} {stamps : CommandStamps} {req : ResumeRequest} {t : SessionTree}

theorem Kernel.resume_disk {k : Kernel} (h : k.sessions req.sessionId = none)
    (stamps : CommandStamps) :
    (k.resume req stamps).1.disk = resumedDisk k.disk req stamps := by
  obtain ⟨record, hbuilt⟩ := resume_builds h stamps
  rw [hbuilt]
  rfl

theorem get_makeDir_of_file {disk : SessionTree} {file : SessionFile}
    (h : disk.get path = some (.file file)) (dir : Path) :
    (Kernel.makeDir disk dir).get path = some (.file file) := by
  unfold Kernel.makeDir
  cases hmade : disk.createDirAll dir with
  | error e => exact h
  | ok t =>
    dsimp only
    rw [FileTree.get_of_createDirAll hmade, if_neg]
    · exact h
    · intro hbelow
      exact (FileTree.createDirAll_ok_iff disk dir).mp ⟨t, hmade⟩ path file hbelow h

theorem freshSession_fits (h : stamps.now < 2 ^ 63) : (Kernel.freshSession req stamps).Fits where
  version := (by decide : SESSION_VERSION < 2 ^ 32)
  createdAtMs := h
  updatedAtMs := h
  messages := by rintro message ⟨⟩
  compaction := by rintro compaction ⟨⟩
  promptHistory := by rintro entry ⟨⟩

theorem freshSession_snapshot (req : ResumeRequest) (h : stamps.now < 2 ^ 63) :
    ∃ snapshot, (Kernel.freshSession req stamps).renderJsonlSnapshot = .ok snapshot ∧
      recordedMessages (snapshot.map .char) = [] := by
  obtain ⟨snapshot, hsnap, hread⟩ := Session.fromJsonl_snapshot (freshSession_fits h)
  exact ⟨snapshot, hsnap, Session.recordedMessages_of_fromJsonl (hread 0 ⟨0, 0⟩)⟩

theorem freshSession_refused (req : ResumeRequest) (h : ¬ stamps.now < 2 ^ 63) (t : SessionTree)
    (path : Path) (save : SaveStamps) :
    ((Kernel.freshSession req stamps).saveToPath t path save).1 = t := by
  have hcreated : (Kernel.freshSession req stamps).createdAtMs = stamps.now := rfl
  unfold Session.saveToPath Session.renderJsonlSnapshot Session.records Session.metaRecord
    i64FromNat
  rw [hcreated, if_neg h]
  rfl

section Bootstrap

variable {t : SessionTree} {path : Path} {session : Session}

theorem bootstrapFile_present (hsession : session.persistencePath = some path)
    {node : Node SessionFile} (h : t.get path = some node) (stamps : SaveStamps) :
    Kernel.bootstrapFile t session stamps = t := by
  unfold Kernel.bootstrapFile FileTree.pathExists
  rw [hsession]
  dsimp only
  rw [h]
  rfl

theorem bootstrapFile_absent (hsession : session.persistencePath = some path)
    (h : t.get path = none) (stamps : SaveStamps) :
    Kernel.bootstrapFile t session stamps = (session.saveToPath t path stamps).1 := by
  unfold Kernel.bootstrapFile FileTree.pathExists
  rw [hsession]
  dsimp only
  rw [h]
  rfl

end Bootstrap

theorem stillReadable_unchanged {t' : SessionTree} (h : t'.get path = t.get path) :
    StillReadable t' path (messagesAt t path) := by
  left
  rw [messagesAt_congr h]

theorem self_not_stale (hpath : path ≠ []) (t : SessionTree) :
    path ∉ staleCopies t path := by
  intro hstale
  have hrotated := List.mem_of_mem_take (List.takeWhile_subset _ hstale)
  exact rotatedPaths_ne hpath hrotated rfl

theorem stillReadable_saved {rotated : SessionTree} {temp : Stamp} {snapshot : SessionFile}
    {messages : List ConversationMessage} (hpath : path ≠ [])
    (hempty : recordedMessages snapshot.content = [])
    (hget : ∀ q, t.get q = if q ∈ staleCopies rotated path then none
      else if q = path then some (.file snapshot)
      else if q = temporaryPathFor path temp then none
      else rotated.get q) :
    StillReadable t path messages ↔ messages = [] ∨ CopyKept rotated path messages := by
  have hself := self_not_stale hpath rotated
  have hfresh : messagesAt t path = [] := by
    rw [messagesAt_of_file (by rw [hget, if_neg hself, if_pos rfl]), hempty]
  have hcopy : ∀ name, isRotatedName (Path.stem (fileName path)) name = true →
      t.get (withFileName path name) = if withFileName path name ∈ staleCopies rotated path
        then none else rotated.get (withFileName path name) := by
    intro name hname
    have hnotSelf := rotated_ne hpath hname
    rw [hget, if_neg hnotSelf, if_neg (rotated_ne_temporary hname)]
  constructor
  · rintro (hread | ⟨name, hname, hread⟩)
    · rw [hfresh] at hread
      exact .inl (List.sublist_nil.mp hread)
    · by_cases hstale : withFileName path name ∈ staleCopies rotated path
      · rw [messagesAt_of_absent (by rw [hcopy name hname, if_pos hstale])] at hread
        exact .inl (List.sublist_nil.mp hread)
      · rw [messagesAt_congr (t := rotated) (by rw [hcopy name hname, if_neg hstale])] at hread
        exact .inr ⟨name, hname, hstale, hread⟩
  · rintro (rfl | ⟨name, hname, hstale, hread⟩)
    · exact .inl (List.nil_sublist _)
    · refine .inr ⟨name, hname, ?_⟩
      rwa [messagesAt_congr (t := rotated) (by rw [hcopy name hname, if_neg hstale])]

section Recovery

variable {t : SessionTree} {path : Path} {file : SessionFile} {session : Session}
  {stamps : CommandStamps} {snapshot : List Char}

/-- The disk after the fallback of a resume, from the disk `t` with the
session's directory. -/
def fallbackDisk (t : SessionTree) (path : Path) (session : Session) (stamps : CommandStamps) :
    SessionTree :=
  Kernel.bootstrapFile (session.saveToPath t path stamps.save).1 session stamps.bootstrap

theorem not_oversized (hfile : t.get path = some (.file file))
    (hshort : file.len < ROTATE_AFTER_BYTES) : ¬ Oversized t path := by
  rintro ⟨other, hother, hlong⟩
  rw [fileAt_of_file hfile] at hother
  cases hother
  omega

theorem oversized (hfile : t.get path = some (.file file))
    (hlong : ¬ file.len < ROTATE_AFTER_BYTES) : Oversized t path :=
  ⟨file, fileAt_of_file hfile, by omega⟩

theorem overwrites_short_iff (htime : stamps.now < 2 ^ 63) (hsize : ¬ Oversized t path) :
    Overwrites t path stamps ↔ ¬ t.get (temporaryPathFor path stamps.save.temp) = some .dir := by
  unfold Overwrites
  simp only [htime, hsize, not_false_eq_true, true_and, false_and, or_false]

theorem overwrites_long_iff (htime : stamps.now < 2 ^ 63) (hsize : Oversized t path)
    (hfree : t.get (rotatedLogPath path stamps.save.rotated) ≠ some .dir) :
    Overwrites t path stamps ↔
      ¬ (t.get (temporaryPathFor path stamps.save.temp) = some .dir ∧
        t.get (temporaryPathFor path stamps.bootstrap.temp) = some .dir) := by
  unfold Overwrites
  rw [not_and_or]
  simp only [htime, hsize, hfree, not_true, ne_eq, not_false_eq_true, true_and, false_and,
    false_or]

theorem fallback_short (hfile : t.get path = some (.file file))
    (hshort : file.len < ROTATE_AFTER_BYTES) (hsession : session.persistencePath = some path)
    (hsnap : session.renderJsonlSnapshot = .ok snapshot)
    (hempty : recordedMessages (snapshot.map .char) = []) :
    StillReadable (fallbackDisk t path session stamps) path (messagesAt t path) ↔
      t.get (temporaryPathFor path stamps.save.temp) = some .dir ∨
        messagesAt t path = [] ∨ CopyKept t path (messagesAt t path) := by
  have hpath := ne_nil_of_file hfile
  have hparent := parent_of_file hfile
  have hdir : t.get path ≠ some .dir := by simp [hfile]
  have hrotated := rotate_short hfile hshort stamps.save.rotated
  unfold fallbackDisk
  by_cases hblocked : t.get (temporaryPathFor path stamps.save.temp) = some .dir
  · rw [saveToPath_blocked hsnap hrotated hparent hblocked,
      bootstrapFile_present hsession hfile]
    exact iff_of_true (stillReadable_unchanged rfl) (.inl hblocked)
  · have hget := saveToPath_done hpath hsnap hrotated hparent hdir hblocked
    have hwritten := (hget path).trans ((if_neg (self_not_stale hpath t)).trans (if_pos rfl))
    rw [bootstrapFile_present hsession hwritten,
      stillReadable_saved hpath hempty hget]
    simp [hblocked]

theorem fallback_refused (hfile : t.get path = some (.file file))
    (hlong : ¬ file.len < ROTATE_AFTER_BYTES)
    (hrefused : t.get (rotatedLogPath path stamps.save.rotated) = some .dir)
    (hsession : session.persistencePath = some path)
    (hsnap : session.renderJsonlSnapshot = .ok snapshot) :
    fallbackDisk t path session stamps = t := by
  have hsaved : (session.saveToPath t path stamps.save).1 = t := by
    unfold Session.saveToPath
    rw [hsnap]
    dsimp only
    rw [rotate_refused hfile hlong hrefused]
  unfold fallbackDisk
  rw [hsaved, bootstrapFile_present hsession hfile]

theorem fallback_long (hfile : t.get path = some (.file file))
    (hlong : ¬ file.len < ROTATE_AFTER_BYTES)
    (hfree : t.get (rotatedLogPath path stamps.save.rotated) ≠ some .dir)
    (hsession : session.persistencePath = some path)
    (hsnap : session.renderJsonlSnapshot = .ok snapshot)
    (hempty : recordedMessages (snapshot.map .char) = []) :
    StillReadable (fallbackDisk t path session stamps) path (messagesAt t path) ↔
      (t.get (temporaryPathFor path stamps.save.temp) = some .dir ∧
        t.get (temporaryPathFor path stamps.bootstrap.temp) = some .dir) ∨
        messagesAt t path = [] ∨
        CopyKept (rotateSessionFileIfNeeded t path stamps.save.rotated).1 path
          (messagesAt t path) := by
  have hpath := ne_nil_of_file hfile
  obtain ⟨rotated, hrotated, hmoved⟩ := rotate_done hfile hlong hfree
  have hcopyName : isRotatedName (Path.stem (fileName path)) (Path.stem (fileName path) ++
      ".rot-" ++ toString stamps.save.rotated ++ ".jsonl") = true := isRotatedName_rotated _ _
  have habsent : rotated.get path = none := by
    rw [hmoved, if_neg (rotatedLogPath_ne hpath _).symm, if_pos rfl]
  have hparent : rotated.get path.dropLast = some .dir := by
    have hdir := parent_of_file hfile
    rw [hmoved, if_neg, if_neg]
    · exact hdir
    · intro heq
      rw [heq, hfile] at hdir
      cases hdir
    · intro heq
      rw [heq] at hdir
      exact hfree hdir
  have htemp : ∀ stamp, rotated.get (temporaryPathFor path stamp) =
      t.get (temporaryPathFor path stamp) := by
    intro stamp
    have hnotCopy : rotatedLogPath path stamps.save.rotated ≠ temporaryPathFor path stamp :=
      rotated_ne_temporary hcopyName
    rw [hmoved, if_neg hnotCopy.symm, if_neg (temporaryPathFor_ne hpath stamp)]
  have hnotDir : rotated.get path ≠ some .dir := by simp [habsent]
  rw [hrotated]
  dsimp only
  unfold fallbackDisk
  by_cases hblocked : t.get (temporaryPathFor path stamps.save.temp) = some .dir
  · rw [saveToPath_blocked hsnap hrotated hparent ((htemp _).trans hblocked),
      bootstrapFile_absent hsession habsent]
    have hagain := rotate_absent habsent stamps.bootstrap.rotated
    by_cases hagainBlocked : t.get (temporaryPathFor path stamps.bootstrap.temp) = some .dir
    · rw [saveToPath_blocked hsnap hagain hparent ((htemp _).trans hagainBlocked)]
      refine iff_of_true (.inr ⟨_, hcopyName, ?_⟩) (.inl ⟨hblocked, hagainBlocked⟩)
      have hcopy : rotated.get (rotatedLogPath path stamps.save.rotated) = some (.file file) := by
        rw [hmoved, if_pos rfl]
      rw [messagesAt_of_file hfile]
      exact (messagesAt_of_file hcopy).symm ▸ List.Sublist.refl _
    · rw [stillReadable_saved hpath hempty
        (saveToPath_done hpath hsnap hagain hparent hnotDir ((htemp _).symm ▸ hagainBlocked))]
      simp [hagainBlocked]
  · have hget := saveToPath_done hpath hsnap hrotated hparent hnotDir
      ((htemp _).symm ▸ hblocked)
    have hwritten := (hget path).trans ((if_neg (self_not_stale hpath _)).trans (if_pos rfl))
    rw [bootstrapFile_present hsession hwritten, stillReadable_saved hpath hempty hget]
    simp [hblocked]

end Recovery

section Command

variable {disk : SessionTree} {req : ResumeRequest} {stamps : CommandStamps}

variable {file : SessionFile}

theorem resumedDisk_loaded {session : Session}
    (hload : Kernel.loadRequested disk req stamps = .ok session)
    (hfile : disk.get (Kernel.resumePath req) = some (.file file)) :
    resumedDisk disk req stamps = Kernel.makeDir disk (Kernel.resumeDir req) := by
  have hpath : (session.withWorkspaceRoot req.dataDir).persistencePath =
      some (Kernel.resumePath req) := by
    rw [← Session.loadFromPath_path hload]
    rfl
  have hresumed : Kernel.resumedSession disk req stamps =
      (session.withWorkspaceRoot req.dataDir, Kernel.makeDir disk (Kernel.resumeDir req)) := by
    unfold Kernel.resumedSession
    rw [hload]
  unfold resumedDisk
  rw [hresumed]
  exact bootstrapFile_present hpath (get_makeDir_of_file hfile _) _

theorem resumedDisk_fallback {e : SessionError}
    (hload : Kernel.loadRequested disk req stamps = .error e) :
    resumedDisk disk req stamps = fallbackDisk (Kernel.makeDir disk (Kernel.resumeDir req))
      (Kernel.resumePath req) (Kernel.freshSession req stamps) stamps := by
  have hresumed : Kernel.resumedSession disk req stamps = (Kernel.freshSession req stamps,
      ((Kernel.freshSession req stamps).saveToPath (Kernel.makeDir disk (Kernel.resumeDir req))
        (Kernel.resumePath req) stamps.save).1) := by
    unfold Kernel.resumedSession
    rw [hload]
  unfold resumedDisk
  rw [hresumed]
  rfl

theorem fallback_readable_iff (hfile : t.get path = some (.file file))
    (hpath : path = Kernel.resumePath req) :
    StillReadable (fallbackDisk t path (Kernel.freshSession req stamps) stamps) path
        (messagesAt t path) ↔
      messagesAt t path = [] ∨ ¬ Overwrites t path stamps ∨
        CopyKept (rotateSessionFileIfNeeded t path stamps.save.rotated).1 path
          (messagesAt t path) := by
  have hsession : (Kernel.freshSession req stamps).persistencePath = some path := by
    rw [hpath]
    rfl
  by_cases htime : stamps.now < 2 ^ 63
  · obtain ⟨snapshot, hsnap, hempty⟩ := freshSession_snapshot req htime
    by_cases hshort : file.len < ROTATE_AFTER_BYTES
    · rw [fallback_short hfile hshort hsession hsnap hempty, rotate_short hfile hshort,
        overwrites_short_iff htime (not_oversized hfile hshort), not_not]
      exact or_left_comm
    · have hsize := oversized hfile hshort
      by_cases hrefused : t.get (rotatedLogPath path stamps.save.rotated) = some .dir
      · rw [fallback_refused hfile hshort hrefused hsession hsnap]
        refine iff_of_true (stillReadable_unchanged rfl) (.inr (.inl ?_))
        rintro ⟨-, ⟨hnot, -⟩ | ⟨-, hfree, -⟩⟩
        · exact hnot hsize
        · exact hfree hrefused
      · rw [fallback_long hfile hshort hrefused hsession hsnap hempty,
          overwrites_long_iff htime hsize hrefused, not_not]
        exact or_left_comm
  · have hsaved := freshSession_refused req htime t path stamps.save
    have hdisk : fallbackDisk t path (Kernel.freshSession req stamps) stamps = t := by
      unfold fallbackDisk
      rw [hsaved, bootstrapFile_present hsession hfile]
    rw [hdisk]
    exact iff_of_true (stillReadable_unchanged rfl) (.inr (.inl fun hover => htime hover.1))

theorem resumedDisk_readable_iff (disk : SessionTree) (req : ResumeRequest)
    (stamps : CommandStamps) :
    StillReadable (resumedDisk disk req stamps) (Kernel.resumePath req)
        (messagesAt disk (Kernel.resumePath req)) ↔
      RecoverySpares disk req stamps := by
  unfold RecoverySpares
  dsimp only
  cases hfile : disk.fileAt (Kernel.resumePath req) with
  | none =>
    have hnone : messagesAt disk (Kernel.resumePath req) = [] := by
      unfold messagesAt
      rw [hfile]
    rw [hnone]
    exact iff_of_true (.inl (List.nil_sublist _)) (.inr (.inl rfl))
  | some file =>
    have hnode := get_of_fileAt hfile
    have hmade := get_makeDir_of_file hnode (Kernel.resumeDir req)
    have hsame : messagesAt disk (Kernel.resumePath req) =
        messagesAt (Kernel.makeDir disk (Kernel.resumeDir req)) (Kernel.resumePath req) :=
      messagesAt_congr (hnode.trans hmade.symm)
    cases hload : Kernel.loadRequested disk req stamps with
    | ok session =>
      rw [resumedDisk_loaded hload hnode, hsame]
      exact iff_of_true (stillReadable_unchanged rfl) (.inl ⟨session, rfl⟩)
    | error e =>
      rw [resumedDisk_fallback hload, hsame, fallback_readable_iff hmade rfl]
      simp

end Command

def tornDisk : SessionTree := treeWithFile ["data", "sessions", "s1.jsonl"]
  ("\x7b\"type\":\"message\",\"message\":\x7b\"role\":\"user\",\"blocks\":" ++
    "[\x7b\"type\":\"text\",\"text\":\"why is it slow?\"\x7d]\x7d\x7d\n\x7b\"type\":")

def tornRequest : ResumeRequest := ⟨"s1", "/data", "", "mock", none, 0⟩

def tornStamps : CommandStamps := ⟨2, ⟨3, 0⟩, 4, ⟨5, ⟨6, 1⟩, 7⟩, ⟨8, ⟨9, 2⟩, 10⟩⟩

theorem tornDisk_not_spared : ¬ RecoverySpares tornDisk tornRequest tornStamps := by
  have hdir : tornDisk.get (Kernel.resumeDir tornRequest) = some .dir := by decide +kernel
  have hmade : Kernel.makeDir tornDisk (Kernel.resumeDir tornRequest) = tornDisk := by
    unfold Kernel.makeDir
    rw [FileTree.createDirAll_of_dir hdir]
  have hrecorded : messagesAt tornDisk (Kernel.resumePath tornRequest) =
      [.userText "why is it slow?"] := by decide +kernel
  obtain ⟨file, hfile, hshort⟩ : ∃ file,
      tornDisk.get (Kernel.resumePath tornRequest) = some (.file file) ∧
        file.len < ROTATE_AFTER_BYTES := by
    have hany : (tornDisk.fileAt (Kernel.resumePath tornRequest)).any
        (fun file => file.len < ROTATE_AFTER_BYTES) = true := by decide +kernel
    obtain ⟨file, hfile, hlen⟩ := (Option.any_eq_true _ _).mp hany
    exact ⟨file, get_of_fileAt hfile, of_decide_eq_true hlen⟩
  unfold RecoverySpares
  dsimp only
  rw [hmade, hrecorded, rotate_short hfile hshort]
  rintro (⟨session, hload⟩ | hnone | hnot | ⟨name, hname, -, hread⟩)
  · have hfailed : (Kernel.loadRequested tornDisk tornRequest tornStamps).isOk = false := by
      decide +kernel
    rw [hload] at hfailed
    cases hfailed
  · cases hnone
  · rw [overwrites_short_iff (by decide) (not_oversized hfile hshort), not_not] at hnot
    revert hnot
    decide +kernel
  · have hne := rotated_ne (ne_nil_of_file hfile) hname
    have hpath : Kernel.resumePath tornRequest = ["data", "sessions", "s1.jsonl"] := by
      decide +kernel
    have hother : messagesAt tornDisk (withFileName (Kernel.resumePath tornRequest) name) = [] :=
      messagesAt_treeWithFile (hpath ▸ hne)
    rw [hother] at hread
    cases hread

end DbClinic.Server
