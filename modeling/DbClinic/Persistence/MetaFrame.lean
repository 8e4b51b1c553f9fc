import DbClinic.Persistence.SessionBackend

/-!
Saving the metadata of a session again must leave its messages, checkpoints,
prompts and compaction alone: the server does it after every turn. The memory
backend obeys this frame law. The SQLite backend does not: its
`INSERT OR REPLACE` deletes the existing `session_meta` row first, and the
foreign keys of the four other tables cascade. The JSONL backend obeys it
unless a directory it creates takes the name of some session's data file.
-/

namespace DbClinic.Persistence

open JsonlBackend List

/-- Two stores that answer every question about the data of every session
alike. -/
structure SameChildren (b b' : SessionBackend) : Prop where
  messages : ∀ sid, b'.loadMessages sid = b.loadMessages sid
  messageCount : ∀ sid, b'.messageCount sid = b.messageCount sid
  checkpoints : ∀ sid, b'.listCheckpoints sid = b.listCheckpoints sid
  latestCheckpoint : ∀ sid, b'.loadLatestCheckpoint sid = b.loadLatestCheckpoint sid
  promptHistory : ∀ sid, b'.loadPromptHistory sid = b.loadPromptHistory sid
  compaction : ∀ sid, b'.loadCompaction sid = b.loadCompaction sid

/-- The files that hold the data of a session, its metadata excepted. -/
def childPaths (root : Path) (sessionId : String) : List Path :=
  let dir := sessionDir root sessionId
  [messagesPath dir, checkpointsPath dir, promptHistoryPath dir, compactionPath dir]

theorem readJsonlLines_congr {t t' : LineTree} {p : Path} (h : t'.get p = t.get p) :
    readJsonlLines t' p = readJsonlLines t p := by
  unfold readJsonlLines FileTree.pathExists FileTree.readFile
  rw [h]

theorem sameChildren_of_files {b b' : JsonlBackend} (hroot : b'.root = b.root)
    (hfiles : ∀ sid, ∀ p ∈ childPaths b.root sid, b'.tree.get p = b.tree.get p) :
    SameChildren (.jsonl b) (.jsonl b') := by
  have hmsgLines (sid : String) :=
    readJsonlLines_congr (hfiles sid (messagesPath (sessionDir b.root sid)) (by simp [childPaths]))
  have hcpLines (sid : String) :=
    readJsonlLines_congr
      (hfiles sid (checkpointsPath (sessionDir b.root sid)) (by simp [childPaths]))
  have hpromptLines (sid : String) :=
    readJsonlLines_congr
      (hfiles sid (promptHistoryPath (sessionDir b.root sid)) (by simp [childPaths]))
  have hcp (sid : String) : b'.listCheckpoints sid = b.listCheckpoints sid := by
    unfold listCheckpoints
    rw [hroot, hcpLines]
  constructor
  · intro sid
    change b'.loadMessages sid = b.loadMessages sid
    unfold loadMessages
    rw [hroot, hmsgLines]
  · intro sid
    change b'.messageCount sid = b.messageCount sid
    unfold messageCount
    rw [hroot, hmsgLines]
  · exact hcp
  · intro sid
    change b'.loadLatestCheckpoint sid = b.loadLatestCheckpoint sid
    unfold loadLatestCheckpoint
    rw [hcp]
  · intro sid
    change b'.loadPromptHistory sid = b.loadPromptHistory sid
    unfold loadPromptHistory
    rw [hroot, hpromptLines]
  · intro sid
    change b'.loadCompaction sid = b.loadCompaction sid
    have hfile := hfiles sid (compactionPath (sessionDir b.root sid)) (by simp [childPaths])
    unfold loadCompaction FileTree.pathExists FileTree.readFile
    rw [hroot]
    dsimp only
    rw [hfile]

theorem childPath_ne {root dir : Path} {sid : String} {p : Path}
    (hp : p ∈ childPaths root sid) : p ≠ metaPath dir ∧ p ≠ dir ++ ["meta.tmp"] := by
  have hlast : p.getLast? ∈ [some "messages.jsonl", some "checkpoints.jsonl",
      some "prompt_history.jsonl", some "compaction.json"] := by
    simp only [childPaths, mem_cons, not_mem_nil, or_false] at hp
    rcases hp with rfl | rfl | rfl | rfl <;>
      simp [messagesPath, checkpointsPath, promptHistoryPath, compactionPath]
  constructor
  · rintro rfl
    simp [metaPath] at hlast
  · rintro rfl
    simp at hlast

/-- No directory made for the record takes the name of a data file: a regular
file stops its creation, or what lies on the way exists already. -/
def JsonlKeepsChildren (b : JsonlBackend) (r : SessionRecord) : Prop :=
  (∃ q data, q <+: recordDir b.root r ∧ b.tree.get q = some (.file data)) ∨
    ∀ sid, ∀ p ∈ childPaths b.root sid, p <+: recordDir b.root r → b.tree.get p ≠ none

theorem readJsonlLines_of_none {t : LineTree} {p : Path} (h : t.get p = none) :
    readJsonlLines t p = .ok [] := by
  simp [readJsonlLines, FileTree.pathExists, h]
  rfl

theorem readJsonlLines_of_dir {t : LineTree} {p : Path} (h : t.get p = some .dir) :
    readJsonlLines t p = .error (.io .isADirectory) := by
  simp only [readJsonlLines, FileTree.pathExists, FileTree.readFile, h]
  rfl

theorem data_file_not_made_dir {b b' : JsonlBackend} (hroot : b'.root = b.root)
    (hsame : SameChildren (.jsonl b) (.jsonl b')) {sid : String} {p : Path}
    (hp : p ∈ childPaths b.root sid) (hnone : b.tree.get p = none) :
    b'.tree.get p ≠ some .dir := by
  intro hdir
  have hbefore := readJsonlLines_of_none hnone
  have hafter := readJsonlLines_of_dir hdir
  simp only [childPaths, mem_cons, not_mem_nil, or_false] at hp
  rcases hp with rfl | rfl | rfl | rfl
  · have h : b'.loadMessages sid = b.loadMessages sid := hsame.messages sid
    rw [loadMessages, loadMessages, hroot, hbefore, hafter] at h
    cases h
  · have h : b'.listCheckpoints sid = b.listCheckpoints sid := hsame.checkpoints sid
    rw [listCheckpoints, listCheckpoints, hroot, hbefore, hafter] at h
    cases h
  · have h : b'.loadPromptHistory sid = b.loadPromptHistory sid := hsame.promptHistory sid
    rw [loadPromptHistory, loadPromptHistory, hroot, hbefore, hafter] at h
    cases h
  · have h : b'.loadCompaction sid = b.loadCompaction sid := hsame.compaction sid
    simp [loadCompaction, hroot, FileTree.pathExists, FileTree.readFile, hnone, hdir, liftIo] at h
    cases h

theorem jsonl_sameChildren_iff (b : JsonlBackend) (r : SessionRecord) :
    SameChildren (.jsonl b) (.jsonl (b.saveSessionMeta r).1) ↔ JsonlKeepsChildren b r := by
  cases hdir : b.tree.createDirAll (recordDir b.root r) with
  | error e =>
    rw [saveSessionMeta_of_blocked b r hdir]
    refine ⟨fun _ => .inl ?_, fun _ => sameChildren_of_files rfl fun _ _ _ => rfl⟩
    have hfails : ¬ ∃ t, b.tree.createDirAll (recordDir b.root r) = .ok t := by simp [hdir]
    rw [FileTree.createDirAll_ok_iff] at hfails
    push Not at hfails
    exact hfails
  | ok t =>
    have hfree := (FileTree.createDirAll_ok_iff b.tree _).mp ⟨t, hdir⟩
    have hget : ∀ sid, ∀ p ∈ childPaths b.root sid,
        (b.saveSessionMeta r).1.tree.get p =
          if p <+: recordDir b.root r then some .dir else b.tree.get p := by
      intro sid p hp
      have hne := @childPath_ne b.root (recordDir b.root r) sid p hp
      exact get_saveSessionMeta b r hdir hne.1 hne.2
    constructor
    · intro hsame
      right
      intro sid p hp hpre hnone
      apply data_file_not_made_dir (saveSessionMeta_root b r) hsame hp hnone
      rw [hget sid p hp, if_pos hpre]
    · rintro (⟨q, data, hq, hfile⟩ | hexists)
      · exact absurd hfile (hfree q data hq)
      · apply sameChildren_of_files (saveSessionMeta_root b r)
        intro sid p hp
        rw [hget sid p hp]
        split
        · rename_i hpre
          cases hnode : b.tree.get p with
          | none => exact absurd hnode (hexists sid p hp hpre)
          | some node =>
            cases node with
            | dir => rfl
            | file data => exact absurd hnode (hfree p data hpre)
        · rfl

/-- The four tables that refer to `session_meta` have no row of the session. -/
def NoChildRows (b : SqliteBackend) (sessionId : String) : Prop :=
  b.messages.select (fun m => m.sessionId = sessionId) = [] ∧
    b.checkpoints.select (fun c => c.sessionId = sessionId) = [] ∧
    b.promptHistory.select (fun p => p.sessionId = sessionId) = [] ∧
    b.compaction.get sessionId = none

/-- Nothing is cascaded: an integer is refused, no row is replaced, or the
replaced row has no children. -/
def SqliteKeepsChildren (b : SqliteBackend) (r : SessionRecord) : Prop :=
  [r.createdAtMs, r.updatedAtMs].all fitsColumn = false ∨
    b.sessionMeta.get r.sessionId = none ∨ NoChildRows b r.sessionId

theorem sortByKey_eq_nil_iff {α : Type*} (key : α → Nat) (items : List α) :
    sortByKey key items = [] ↔ items = [] := by
  rw [← length_eq_zero_iff, (sortByKey_perm key items).length_eq, length_eq_zero_iff]

theorem sameChildren_of_tables {b b' : SqliteBackend}
    (hmsg : ∀ sid, b'.messages.select (fun m => m.sessionId = sid) =
      b.messages.select fun m => m.sessionId = sid)
    (hcp : ∀ sid, b'.checkpoints.select (fun c => c.sessionId = sid) =
      b.checkpoints.select fun c => c.sessionId = sid)
    (hprompt : ∀ sid, b'.promptHistory.select (fun p => p.sessionId = sid) =
      b.promptHistory.select fun p => p.sessionId = sid)
    (hcomp : ∀ sid, b'.compaction.get sid = b.compaction.get sid) :
    SameChildren (.sqlite b) (.sqlite b') where
  messages sid := by
    simp only [SessionBackend.loadMessages, SqliteBackend.loadMessages, hmsg]
  messageCount sid := by
    simp only [SessionBackend.messageCount, SqliteBackend.messageCount, hmsg]
  checkpoints sid := by
    simp only [SessionBackend.listCheckpoints, SqliteBackend.listCheckpoints, hcp]
  latestCheckpoint sid := by
    simp only [SessionBackend.loadLatestCheckpoint, SqliteBackend.loadLatestCheckpoint,
      SqliteBackend.listCheckpoints, hcp]
  promptHistory sid := by
    simp only [SessionBackend.loadPromptHistory, SqliteBackend.loadPromptHistory, hprompt]
  compaction sid := by
    simp only [SessionBackend.loadCompaction, SqliteBackend.loadCompaction, hcomp]

private theorem select_other {α : Type} (t : Table α) (session : α → String) (gone sid : String)
    (hnone : t.select (fun a => session a = gone) = []) :
    (t.deleteWhere fun a => session a = gone).select (fun a => session a = sid) =
      t.select fun a => session a = sid := by
  rw [Table.select_deleteWhere]
  unfold Table.select at hnone ⊢
  apply filter_congr
  intro a ha
  have hne : session a ≠ gone := by
    intro heq
    have hmem : a ∈ (t.rows.map Prod.snd).filter fun a => session a = gone :=
      mem_filter.mpr ⟨ha, decide_eq_true heq⟩
    rw [hnone] at hmem
    cases hmem
  simp [hne]

theorem select_gone {α : Type} (t : Table α) (session : α → String) (gone : String) :
    (t.deleteWhere fun a => session a = gone).select (fun a => session a = gone) = [] := by
  simp [Table.select, Table.deleteWhere]

private theorem saved_tables (b : SqliteBackend) (r : SessionRecord)
    (hfits : [r.createdAtMs, r.updatedAtMs].all fitsColumn = true) :
    (b.saveSessionMeta r).1 =
      { b.deleteMetaRow r.sessionId with
        sessionMeta := (b.deleteMetaRow r.sessionId).sessionMeta.insert r.sessionId r } := by
  simp [SqliteBackend.saveSessionMeta, hfits]

theorem sqlite_sameChildren_iff (b : SqliteBackend) (r : SessionRecord) :
    SameChildren (.sqlite b) (.sqlite (b.saveSessionMeta r).1) ↔ SqliteKeepsChildren b r := by
  cases hfits : [r.createdAtMs, r.updatedAtMs].all fitsColumn with
  | false =>
    have hsame : (b.saveSessionMeta r).1 = b := by
      simp [SqliteBackend.saveSessionMeta, hfits]
    rw [hsame]
    exact ⟨fun _ => .inl hfits, fun _ => sameChildren_of_tables (fun _ => rfl) (fun _ => rfl)
      (fun _ => rfl) (fun _ => rfl)⟩
  | true =>
    rw [saved_tables b r hfits]
    cases hrow : b.sessionMeta.get r.sessionId with
    | none =>
      simp only [SqliteBackend.deleteMetaRow, hrow]
      exact ⟨fun _ => .inr (.inl hrow), fun _ => sameChildren_of_tables (fun _ => rfl)
        (fun _ => rfl) (fun _ => rfl) (fun _ => rfl)⟩
    | some old =>
      simp only [SqliteBackend.deleteMetaRow, hrow]
      constructor
      · intro hsame
        refine .inr (.inr ⟨?_, ?_, ?_, ?_⟩)
        · have h := Except.ok.inj (hsame.messages r.sessionId)
          rw [SqliteBackend.cascade, select_gone, eq_comm] at h
          exact (sortByKey_eq_nil_iff _ _).mp h
        · have h := Except.ok.inj (hsame.checkpoints r.sessionId)
          rw [SqliteBackend.cascade, select_gone, eq_comm] at h
          exact (sortByKey_eq_nil_iff _ _).mp h
        · have h := Except.ok.inj (hsame.promptHistory r.sessionId)
          rw [SqliteBackend.cascade, select_gone, eq_comm] at h
          exact (sortByKey_eq_nil_iff _ _).mp h
        · have h := Except.ok.inj (hsame.compaction r.sessionId)
          rw [SqliteBackend.cascade, KeyMap.get_erase_self] at h
          exact h.symm
      · rintro (h | h | ⟨hmsg, hcp, hprompt, hcomp⟩)
        · rw [hfits] at h
          cases h
        · rw [hrow] at h
          cases h
        · apply sameChildren_of_tables
          · exact fun sid => select_other _ MessageRecord.sessionId _ sid hmsg
          · exact fun sid => select_other _ Checkpoint.sessionId _ sid hcp
          · exact fun sid => select_other _ PromptHistoryRecord.sessionId _ sid hprompt
          · intro sid
            simp only [SqliteBackend.cascade, KeyMap.get_erase]
            split
            · rename_i heq
              rw [heq, hcomp]
            · rfl

def KeepsChildren : SessionBackend → SessionRecord → Prop
  | .memory _, _ => True
  | .jsonl b, r => JsonlKeepsChildren b r
  | .sqlite b, r => SqliteKeepsChildren b r

end DbClinic.Persistence
