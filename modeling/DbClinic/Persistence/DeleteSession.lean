import DbClinic.Persistence.MetaFrame

/-!
What a delete leaves of a session. The SQLite backend deletes the rows of the
session with its `session_meta` row, because no row is stored without one. The
JSONL backend deletes the directory in which everything of the session lies.
The memory backend removes one of five entries: the messages, checkpoints,
prompts and the compaction stay, and are there again when the session is.
-/

namespace DbClinic.Persistence

open JsonlBackend List

/-- No data of a session is found. -/
structure Gone (b : SessionBackend) (sid : String) : Prop where
  messages : b.loadMessages sid = .ok []
  messageCount : b.messageCount sid = .ok 0
  checkpoints : b.listCheckpoints sid = .ok []
  latestCheckpoint : b.loadLatestCheckpoint sid = .ok none
  promptHistory : b.loadPromptHistory sid = .ok []
  compaction : b.loadCompaction sid = .ok none

/-- Two stores that answer every question about one session alike. -/
structure SameSession (b b' : SessionBackend) (sid : String) : Prop where
  sessionMeta : b'.loadSessionMeta sid = b.loadSessionMeta sid
  messages : b'.loadMessages sid = b.loadMessages sid
  messageCount : b'.messageCount sid = b.messageCount sid
  checkpoints : b'.listCheckpoints sid = b.listCheckpoints sid
  latestCheckpoint : b'.loadLatestCheckpoint sid = b.loadLatestCheckpoint sid
  promptHistory : b'.loadPromptHistory sid = b.loadPromptHistory sid
  compaction : b'.loadCompaction sid = b.loadCompaction sid

/-- What is expected of deleting the session of `record`: its data is gone, is
not back when the session is registered again, and the session `other` is as it
was. -/
def DeleteLeavesNothing (b : SessionBackend) (record : SessionRecord) (other : String) : Prop :=
  let deleted := (b.deleteSession record.sessionId).1
  Gone deleted record.sessionId ∧
    Gone (deleted.saveSessionMeta record).1 record.sessionId ∧ SameSession b deleted other

def ForeignKeys (b : SqliteBackend) : Prop :=
  ∀ sid, b.sessionMeta.get sid = none → NoChildRows b sid

variable {sid : String} {b : SqliteBackend} {α : Type} {p : Path}

variable {t : Table α} {q : α → Bool} {gone other : String}
variable {decode : Line → Except PersistenceError α}

theorem select_deleteWhere_nil (h : t.select q = []) (p : α → Bool) :
    (t.deleteWhere p).select q = [] := by
  rw [Table.select_deleteWhere]
  unfold Table.select at h ⊢
  rw [filter_eq_nil_iff] at h ⊢
  intro a ha hboth
  rw [Bool.and_eq_true] at hboth
  exact h a ha hboth.2

theorem select_insert_nil {row : α} (h : t.select q = []) (hrow : q row = false) :
    (t.insert row).select q = [] := by
  rw [Table.select_insert, h, hrow]
  rfl

theorem noChildRows_cascade (gone : String) (h : NoChildRows b sid) :
    NoChildRows (b.cascade gone) sid := by
  obtain ⟨hmsg, hcp, hprompt, hcomp⟩ := h
  refine ⟨select_deleteWhere_nil hmsg _, select_deleteWhere_nil hcp _,
    select_deleteWhere_nil hprompt _, ?_⟩
  change (b.compaction.erase gone).get sid = none
  rw [KeyMap.get_erase, hcomp, ite_self]

theorem noChildRows_cascade_self (b : SqliteBackend) (sid : String) :
    NoChildRows (b.cascade sid) sid :=
  ⟨select_gone _ MessageRecord.sessionId _, select_gone _ Checkpoint.sessionId _,
    select_gone _ PromptHistoryRecord.sessionId _, KeyMap.get_erase_self _ _⟩

theorem noChildRows_deleteMetaRow (gone : String) (h : NoChildRows b sid) :
    NoChildRows (b.deleteMetaRow gone) sid := by
  unfold SqliteBackend.deleteMetaRow
  split
  · exact noChildRows_cascade gone h
  · exact h

theorem ForeignKeys.deleted (h : ForeignKeys b) (sid : String) :
    NoChildRows (b.deleteMetaRow sid) sid := by
  unfold SqliteBackend.deleteMetaRow
  split
  · exact noChildRows_cascade_self b sid
  · exact h sid ‹_›

theorem ForeignKeys.deleteMetaRow (h : ForeignKeys b) (gone : String) :
    ForeignKeys (b.deleteMetaRow gone) := by
  intro sid hnone
  rcases eq_or_ne sid gone with rfl | hne
  · exact h.deleted sid
  · refine noChildRows_deleteMetaRow gone (h sid ?_)
    unfold SqliteBackend.deleteMetaRow at hnone
    split at hnone
    · exact (KeyMap.get_erase_of_ne b.sessionMeta hne).symm.trans hnone
    · exact hnone

theorem ForeignKeys.insertChild (h : ForeignKeys b) (numbers : List Nat) (sid : String)
    {run : SqliteBackend → SqliteBackend}
    (hrun : b.sessionMeta.get sid ≠ none → ForeignKeys (run b)) :
    ForeignKeys (b.insertChild numbers sid run).1 := by
  unfold SqliteBackend.insertChild
  split
  · exact h
  · split
    · exact h
    · rename_i hsome
      exact hrun (by simpa using hsome)

theorem ForeignKeys.call (h : ForeignKeys b) (c : SessionBackend.Call) {b' : SqliteBackend}
    (hb' : (SessionBackend.sqlite b).call c = .sqlite b') :
    ForeignKeys b' := by
  have hother : ∀ {parent sid : String}, b.sessionMeta.get parent ≠ none →
      b.sessionMeta.get sid = none → parent ≠ sid := by
    rintro parent sid hparent hsid rfl
    exact hparent hsid
  cases c with
  | saveSessionMeta record =>
    cases hb'
    unfold SqliteBackend.saveSessionMeta
    split
    · exact h
    · intro sid hnone
      change ((b.deleteMetaRow record.sessionId).sessionMeta.insert record.sessionId record).get
        sid = none at hnone
      rw [KeyMap.get_insert] at hnone
      split at hnone
      · cases hnone
      · exact h.deleteMetaRow record.sessionId sid hnone
  | deleteSession sid =>
    cases hb'
    exact h.deleteMetaRow sid
  | appendMessage msg =>
    cases hb'
    refine h.insertChild _ _ fun hparent sid hnone => ?_
    unfold SqliteBackend.touchMeta at hnone ⊢
    have hsid : b.sessionMeta.get sid = none := by
      split at hnone
      · rw [KeyMap.get_insert] at hnone
        split at hnone
        · cases hnone
        · exact hnone
      · exact hnone
    obtain ⟨hmsg, hrest⟩ := h sid hsid
    have hinserted : (b.messages.insert msg).select (fun m => m.sessionId = sid) = [] :=
      select_insert_nil hmsg (by simpa using hother hparent hsid)
    split <;> exact ⟨hinserted, hrest⟩
  | saveCheckpoint checkpoint =>
    cases hb'
    refine h.insertChild _ _ fun hparent sid hnone => ?_
    obtain ⟨hmsg, hcp, hrest⟩ := h sid hnone
    exact ⟨hmsg, select_insert_nil (select_deleteWhere_nil hcp _)
      (by simpa using hother hparent hnone), hrest⟩
  | savePromptHistory record =>
    cases hb'
    refine h.insertChild _ _ fun hparent sid hnone => ?_
    obtain ⟨hmsg, hcp, hprompt, hcomp⟩ := h sid hnone
    exact ⟨hmsg, hcp, select_insert_nil hprompt (by simpa using hother hparent hnone), hcomp⟩
  | saveCompaction record =>
    cases hb'
    refine h.insertChild _ _ fun hparent sid hnone => ?_
    obtain ⟨hmsg, hcp, hprompt, hcomp⟩ := h sid hnone
    refine ⟨hmsg, hcp, hprompt, ?_⟩
    exact (KeyMap.get_insert_of_ne b.compaction record (hother hparent hnone).symm).trans hcomp
  | deleteCheckpoints gone =>
    cases hb'
    intro sid hnone
    obtain ⟨hmsg, hcp, hrest⟩ := h sid hnone
    exact ⟨hmsg, select_deleteWhere_nil hcp _, hrest⟩

theorem foreignKeys_of_reachable {b : SessionBackend} (hb : b.Reachable) :
    ∀ s, b = .sqlite s → ForeignKeys s := by
  induction hb with
  | opened hopen =>
    intro s hs
    cases hopen with
    | sqlite =>
      cases hs
      exact fun sid _ => ⟨rfl, rfl, rfl, rfl⟩
    | memory => cases hs
    | jsonl _ _ _ _ => cases hs
  | @call b c _ ih =>
    intro s hs
    cases b with
    | memory m => cases c <;> cases hs
    | jsonl j => cases c <;> cases hs
    | sqlite s₀ => exact (ih s₀ rfl).call c hs

theorem gone_of_noChildRows (h : NoChildRows b sid) :
    Gone (.sqlite b) sid := by
  obtain ⟨hmsg, hcp, hprompt, hcomp⟩ := h
  have hlist : b.listCheckpoints sid = .ok [] := by
    simp [SqliteBackend.listCheckpoints, hcp, sortByKey]
  constructor
  · simp [SessionBackend.loadMessages, SqliteBackend.loadMessages, hmsg, sortByKey]
  · simp [SessionBackend.messageCount, SqliteBackend.messageCount, hmsg]
  · exact hlist
  · simp [SessionBackend.loadLatestCheckpoint, SqliteBackend.loadLatestCheckpoint, hlist]
  · simp [SessionBackend.loadPromptHistory, SqliteBackend.loadPromptHistory, hprompt, sortByKey]
  · simp [SessionBackend.loadCompaction, SqliteBackend.loadCompaction, hcomp]

theorem select_deleteWhere_other (t : Table α) (session : α → String) (hne : sid ≠ gone) :
    (t.deleteWhere fun a => session a = gone).select (fun a => session a = sid) =
      t.select fun a => session a = sid := by
  rw [Table.select_deleteWhere]
  unfold Table.select
  apply filter_congr
  intro a _
  by_cases hsid : session a = sid
  · simp [hsid, hne]
  · simp [hsid]

theorem sqlite_sameSession (b : SqliteBackend) (hne : sid ≠ gone) :
    SameSession (.sqlite b) (.sqlite (b.deleteMetaRow gone)) sid := by
  unfold SqliteBackend.deleteMetaRow
  split
  · have hcp := select_deleteWhere_other b.checkpoints Checkpoint.sessionId hne
    have hmsg := select_deleteWhere_other b.messages MessageRecord.sessionId hne
    constructor
    · exact congrArg Except.ok (KeyMap.get_erase_of_ne b.sessionMeta hne)
    · exact congrArg (fun rows => Except.ok (sortByKey MessageRecord.stepIndex rows)) hmsg
    · exact congrArg (fun rows => Except.ok (List.length rows)) hmsg
    · exact congrArg (fun rows => Except.ok (sortByKey Checkpoint.stepIndex rows)) hcp
    · exact congrArg (fun rows => Except.ok (sortByKey Checkpoint.stepIndex rows).getLast?) hcp
    · exact congrArg (fun rows => Except.ok (sortByKey PromptHistoryRecord.timestampMs rows))
        (select_deleteWhere_other b.promptHistory PromptHistoryRecord.sessionId hne)
    · exact congrArg Except.ok (KeyMap.get_erase_of_ne b.compaction hne)
  · exact ⟨rfl, rfl, rfl, rfl, rfl, rfl, rfl⟩

theorem sqlite_leavesNothing (h : ForeignKeys b) (record : SessionRecord)
    (hne : other ≠ record.sessionId) :
    DeleteLeavesNothing (.sqlite b) record other := by
  have hgone := h.deleted record.sessionId
  refine ⟨gone_of_noChildRows hgone, gone_of_noChildRows ?_, sqlite_sameSession b hne⟩
  change NoChildRows ((b.deleteMetaRow record.sessionId).saveSessionMeta record).1 record.sessionId
  unfold SqliteBackend.saveSessionMeta
  split
  · exact hgone
  · exact noChildRows_deleteMetaRow record.sessionId hgone

/-- The maps a delete does not reach have nothing under the id. -/
def NoMemoryData (m : MemoryBackend) (sid : String) : Prop :=
  (m.messages.get sid).getD [] = [] ∧ (m.checkpoints.get sid).getD [] = [] ∧
    (m.promptHistory.get sid).getD [] = [] ∧ m.compaction.get sid = none

theorem memory_gone_iff (m : MemoryBackend) (sid : String) :
    Gone (.memory m) sid ↔ NoMemoryData m sid := by
  constructor
  · intro h
    exact ⟨Except.ok.inj h.messages, Except.ok.inj h.checkpoints, Except.ok.inj h.promptHistory,
      Except.ok.inj h.compaction⟩
  · rintro ⟨hmsg, hcp, hprompt, hcomp⟩
    have hcount : ((m.messages.get sid).map List.length).getD 0 = 0 := by
      cases hget : m.messages.get sid with
      | none => rfl
      | some rows =>
        rw [hget, Option.getD_some] at hmsg
        rw [hmsg]
        rfl
    have hlatest : (m.checkpoints.get sid).bind List.getLast? = none := by
      cases hget : m.checkpoints.get sid with
      | none => rfl
      | some rows =>
        rw [hget, Option.getD_some] at hcp
        rw [hcp]
        rfl
    exact ⟨congrArg Except.ok hmsg, congrArg Except.ok hcount, congrArg Except.ok hcp,
      congrArg Except.ok hlatest, congrArg Except.ok hprompt, congrArg Except.ok hcomp⟩

theorem memory_leavesNothing_iff (m : MemoryBackend) (record : SessionRecord)
    (hne : other ≠ record.sessionId) :
    DeleteLeavesNothing (.memory m) record other ↔ NoMemoryData m record.sessionId := by
  let deleted := (m.deleteSession record.sessionId).1
  let registered := (deleted.saveSessionMeta record).1
  constructor
  · exact fun h => (memory_gone_iff deleted record.sessionId).mp h.1
  · intro h
    refine ⟨(memory_gone_iff deleted record.sessionId).mpr h,
      (memory_gone_iff registered record.sessionId).mpr h, ?_, rfl, rfl, rfl, rfl, rfl, rfl⟩
    exact congrArg Except.ok (KeyMap.get_erase_of_ne m.sessions hne)

theorem get_deleteSession (b : JsonlBackend) (sid : String) {q : Path} (hq : q ≠ []) :
    (b.deleteSession sid).1.tree.get q =
      if b.tree.get (sessionDir b.root sid) = some .dir ∧ sessionDir b.root sid <+: q then none
      else b.tree.get q := by
  unfold JsonlBackend.deleteSession FileTree.pathExists FileTree.removeDirAll
  cases hdir : b.tree.get (sessionDir b.root sid) with
  | none => simp [hdir]
  | some node =>
    cases node with
    | dir => simp [hdir, FileTree.get_prune_of_ne _ _ hq]
    | file data => simp [hdir]

theorem deleteSession_root (b : JsonlBackend) (sid : String) :
    (b.deleteSession sid).1.root = b.root := by
  unfold JsonlBackend.deleteSession
  dsimp only
  split
  · split <;> rfl
  · rfl

theorem childPaths_below {root : Path} (hp : p ∈ childPaths root sid) :
    ∃ name, p = sessionDir root sid ++ [name] := by
  simp only [childPaths, mem_cons, not_mem_nil, or_false] at hp
  rcases hp with rfl | rfl | rfl | rfl
  · exact ⟨"messages.jsonl", rfl⟩
  · exact ⟨"checkpoints.jsonl", rfl⟩
  · exact ⟨"prompt_history.jsonl", rfl⟩
  · exact ⟨"compaction.json", rfl⟩

theorem get_childPath_deleted (b : JsonlBackend) (sid : String) (hp : p ∈ childPaths b.root sid) :
    (b.deleteSession sid).1.tree.get p = none := by
  obtain ⟨name, rfl⟩ := childPaths_below hp
  rw [get_deleteSession b sid (by simp)]
  split
  · rfl
  · rename_i hkept
    by_contra hsome
    obtain ⟨v, hv⟩ := Option.ne_none_iff_exists'.mp hsome
    exact hkept ⟨FileTree.get_parent hv, prefix_append _ _⟩

section Missing

variable {b : JsonlBackend} {sid : String}

theorem loadMessages_of_none (h : b.tree.get (messagesPath (sessionDir b.root sid)) = none) :
    b.loadMessages sid = .ok [] := by
  unfold JsonlBackend.loadMessages
  rw [readJsonlLines_of_none h]
  rfl

theorem messageCount_of_none (h : b.tree.get (messagesPath (sessionDir b.root sid)) = none) :
    b.messageCount sid = .ok 0 := by
  unfold JsonlBackend.messageCount
  rw [readJsonlLines_of_none h]
  rfl

theorem listCheckpoints_of_none
    (h : b.tree.get (checkpointsPath (sessionDir b.root sid)) = none) :
    b.listCheckpoints sid = .ok [] := by
  unfold JsonlBackend.listCheckpoints
  rw [readJsonlLines_of_none h]
  rfl

theorem loadPromptHistory_of_none
    (h : b.tree.get (promptHistoryPath (sessionDir b.root sid)) = none) :
    b.loadPromptHistory sid = .ok [] := by
  unfold JsonlBackend.loadPromptHistory
  rw [readJsonlLines_of_none h]
  rfl

theorem loadCompaction_of_none
    (h : b.tree.get (compactionPath (sessionDir b.root sid)) = none) :
    b.loadCompaction sid = .ok none := by
  unfold JsonlBackend.loadCompaction FileTree.pathExists
  dsimp only
  rw [h]
  rfl

theorem loadSessionMeta_of_none (h : b.tree.get (metaPath (sessionDir b.root sid)) = none) :
    b.loadSessionMeta sid = .ok none := by
  unfold JsonlBackend.loadSessionMeta FileTree.pathExists
  dsimp only
  rw [h]
  rfl

end Missing

theorem gone_of_files {b : JsonlBackend}
    (hfiles : ∀ p ∈ childPaths b.root sid, b.tree.get p = none) :
    Gone (.jsonl b) sid := by
  have hmsg := hfiles (messagesPath (sessionDir b.root sid)) (by simp [childPaths])
  have hcp := hfiles (checkpointsPath (sessionDir b.root sid)) (by simp [childPaths])
  have hprompt := hfiles (promptHistoryPath (sessionDir b.root sid)) (by simp [childPaths])
  have hcomp := hfiles (compactionPath (sessionDir b.root sid)) (by simp [childPaths])
  have hlist := listCheckpoints_of_none hcp
  constructor
  · exact loadMessages_of_none hmsg
  · exact messageCount_of_none hmsg
  · exact hlist
  · change b.loadLatestCheckpoint sid = _
    unfold JsonlBackend.loadLatestCheckpoint
    rw [hlist]
    rfl
  · exact loadPromptHistory_of_none hprompt
  · exact loadCompaction_of_none hcomp

theorem not_gone_of_dir {b : JsonlBackend} (hp : p ∈ childPaths b.root sid)
    (hdir : b.tree.get p = some .dir) :
    ¬ Gone (.jsonl b) sid := by
  intro h
  have hread := readJsonlLines_of_dir hdir
  simp only [childPaths, mem_cons, not_mem_nil, or_false] at hp
  rcases hp with rfl | rfl | rfl | rfl
  · have hload : b.loadMessages sid = _ := h.messages
    rw [JsonlBackend.loadMessages, hread] at hload
    cases hload
  · have hload : b.listCheckpoints sid = _ := h.checkpoints
    rw [JsonlBackend.listCheckpoints, hread] at hload
    cases hload
  · have hload : b.loadPromptHistory sid = _ := h.promptHistory
    rw [JsonlBackend.loadPromptHistory, hread] at hload
    cases hload
  · have hload : b.loadCompaction sid = _ := h.compaction
    simp [JsonlBackend.loadCompaction, FileTree.pathExists, FileTree.readFile, hdir, liftIo]
      at hload
    cases hload

/-- No directory made for the record takes the name of one of its session's
data files: none lies on the way, or a regular file that is not deleted stops
its creation. -/
def RegistersApart (b : JsonlBackend) (r : SessionRecord) : Prop :=
  (∃ q data, q <+: recordDir b.root r ∧ b.tree.get q = some (.file data) ∧
    ¬ (b.tree.get (sessionDir b.root r.sessionId) = some .dir ∧
      sessionDir b.root r.sessionId <+: q)) ∨
    ∀ p ∈ childPaths b.root r.sessionId, ¬ p <+: recordDir b.root r

theorem jsonl_registered_gone_iff (b : JsonlBackend) (r : SessionRecord) :
    Gone (.jsonl ((b.deleteSession r.sessionId).1.saveSessionMeta r).1) r.sessionId ↔
      RegistersApart b r := by
  have hroot := deleteSession_root b r.sessionId
  have hnone : ∀ p ∈ childPaths b.root r.sessionId,
      (b.deleteSession r.sessionId).1.tree.get p = none :=
    fun p hp => get_childPath_deleted b r.sessionId hp
  have hempty : Gone (.jsonl (b.deleteSession r.sessionId).1) r.sessionId :=
    gone_of_files (by rwa [hroot])
  have hfile : ∀ q data, (b.deleteSession r.sessionId).1.tree.get q = some (.file data) ↔
      b.tree.get q = some (.file data) ∧
        ¬ (b.tree.get (sessionDir b.root r.sessionId) = some .dir ∧
          sessionDir b.root r.sessionId <+: q) := by
    intro q data
    rcases eq_or_ne q [] with rfl | hq
    · simp
    · rw [get_deleteSession b r.sessionId hq]
      split
      · rename_i hinside
        simp [hinside]
      · rename_i houtside
        simp only [houtside, not_false_eq_true, and_true]
  cases hdir : (b.deleteSession r.sessionId).1.tree.createDirAll (recordDir b.root r) with
  | error e =>
    rw [saveSessionMeta_of_blocked _ r (by rwa [hroot])]
    refine ⟨fun _ => .inl ?_, fun _ => hempty⟩
    have hfails : ¬ ∃ t, (b.deleteSession r.sessionId).1.tree.createDirAll
        (recordDir b.root r) = .ok t := by simp [hdir]
    rw [FileTree.createDirAll_ok_iff] at hfails
    push Not at hfails
    obtain ⟨q, data, hq, hget⟩ := hfails
    exact ⟨q, data, hq, (hfile q data).mp hget⟩
  | ok t =>
    have hfree := (FileTree.createDirAll_ok_iff _ _).mp ⟨t, hdir⟩
    have hget : ∀ p ∈ childPaths b.root r.sessionId,
        ((b.deleteSession r.sessionId).1.saveSessionMeta r).1.tree.get p =
          if p <+: recordDir b.root r then some .dir else none := by
      intro p hp
      obtain ⟨hmeta, htmp⟩ := @childPath_ne b.root (recordDir b.root r) r.sessionId p hp
      rw [get_saveSessionMeta _ r (by rwa [hroot]) (by rwa [hroot]) (by rwa [hroot]), hroot,
        hnone p hp]
    constructor
    · intro hgone
      refine .inr fun p hp hpre => ?_
      have hsaved := hget p hp
      rw [if_pos hpre] at hsaved
      exact not_gone_of_dir (by rwa [saveSessionMeta_root, hroot]) hsaved hgone
    · rintro (⟨q, data, hq, hkept⟩ | hapart)
      · exact absurd ((hfile q data).mpr hkept) (hfree q data hq)
      · refine gone_of_files fun p hp => ?_
        rw [saveSessionMeta_root, hroot] at hp
        rw [hget p hp, if_neg (hapart p hp)]

def linePaths (root : Path) (sid : String) : List Path :=
  let dir := sessionDir root sid
  [messagesPath dir, checkpointsPath dir, promptHistoryPath dir]

def recordPaths (root : Path) (sid : String) : List Path :=
  let dir := sessionDir root sid
  [compactionPath dir, metaPath dir]

/-- Nothing of the session `other` is stored in the directory of `sid`, if that
is one. -/
def StoredApart (b : JsonlBackend) (sid other : String) : Prop :=
  b.tree.get (sessionDir b.root sid) = some .dir →
    (∀ p ∈ linePaths b.root other, sessionDir b.root sid <+: p →
      readJsonlLines b.tree p = .ok []) ∧
    ∀ p ∈ recordPaths b.root other, sessionDir b.root sid <+: p → b.tree.get p = none

theorem sameSession_of_reads {b b' : JsonlBackend} (hroot : b'.root = b.root)
    (hlines : ∀ p ∈ linePaths b.root sid, readJsonlLines b'.tree p = readJsonlLines b.tree p)
    (hrecords : ∀ p ∈ recordPaths b.root sid, b'.tree.get p = b.tree.get p) :
    SameSession (.jsonl b) (.jsonl b') sid := by
  let dir := sessionDir b.root sid
  have hmsg := hlines (messagesPath dir) (by simp [linePaths, dir])
  have hcp := hlines (checkpointsPath dir) (by simp [linePaths, dir])
  have hprompt := hlines (promptHistoryPath dir) (by simp [linePaths, dir])
  have hcomp := hrecords (compactionPath dir) (by simp [recordPaths, dir])
  have hmeta := hrecords (metaPath dir) (by simp [recordPaths, dir])
  have hlist : b'.listCheckpoints sid = b.listCheckpoints sid := by
    unfold JsonlBackend.listCheckpoints
    rw [hroot, hcp]
  constructor
  · change b'.loadSessionMeta sid = b.loadSessionMeta sid
    unfold JsonlBackend.loadSessionMeta FileTree.pathExists FileTree.readFile
    rw [hroot]
    dsimp only
    rw [hmeta]
  · change b'.loadMessages sid = b.loadMessages sid
    unfold JsonlBackend.loadMessages
    rw [hroot, hmsg]
  · change b'.messageCount sid = b.messageCount sid
    unfold JsonlBackend.messageCount
    rw [hroot, hmsg]
  · exact hlist
  · change b'.loadLatestCheckpoint sid = b.loadLatestCheckpoint sid
    unfold JsonlBackend.loadLatestCheckpoint
    rw [hlist]
  · change b'.loadPromptHistory sid = b.loadPromptHistory sid
    unfold JsonlBackend.loadPromptHistory
    rw [hroot, hprompt]
  · change b'.loadCompaction sid = b.loadCompaction sid
    unfold JsonlBackend.loadCompaction FileTree.pathExists FileTree.readFile
    rw [hroot]
    dsimp only
    rw [hcomp]

theorem readJsonlLines_of_decoded_nil {t : LineTree}
    (h : (readJsonlLines t p >>= fun lines => lines.mapM decode) = .ok []) :
    readJsonlLines t p = .ok [] := by
  cases hread : readJsonlLines t p with
  | error e =>
    rw [hread] at h
    cases h
  | ok lines =>
    rw [hread] at h
    cases lines with
    | nil => rfl
    | cons line rest =>
      change (line :: rest).mapM decode = .ok [] at h
      rw [mapM_cons] at h
      cases hline : decode line with
      | error e =>
        rw [hline] at h
        cases h
      | ok a =>
        rw [hline] at h
        change (rest.mapM decode >>= fun as => pure (a :: as)) = _ at h
        cases hrest : rest.mapM decode with
        | error e =>
          rw [hrest] at h
          cases h
        | ok as =>
          rw [hrest] at h
          cases h

theorem get_of_record_none {t : LineTree} (h : (if t.pathExists p then do
      let content ← liftIo (t.readFile p)
      let record ← decodeWhole decode content
      return some record
    else return none : Except PersistenceError (Option α)) = .ok none) : t.get p = none := by
  split at h
  · cases hread : liftIo (t.readFile p) with
    | error e =>
      rw [hread] at h
      cases h
    | ok content =>
      rw [hread] at h
      change (decodeWhole decode content >>= fun record => pure (some record)) = _ at h
      cases hrecord : decodeWhole decode content with
      | error e =>
        rw [hrecord] at h
        cases h
      | ok record =>
        rw [hrecord] at h
        cases h
  · rename_i hmissing
    simpa [FileTree.pathExists] using hmissing

theorem jsonl_sameSession_iff (b : JsonlBackend) (sid other : String) :
    SameSession (.jsonl b) (.jsonl (b.deleteSession sid).1) other ↔ StoredApart b sid other := by
  have hroot := deleteSession_root b sid
  constructor
  · intro hsame hdir
    have hgone : ∀ name, sessionDir b.root sid <+: sessionDir b.root other ++ [name] →
        (b.deleteSession sid).1.tree.get
          (sessionDir (b.deleteSession sid).1.root other ++ [name]) = none := by
      intro name hpre
      rw [hroot, get_deleteSession b sid (by simp), if_pos ⟨hdir, hpre⟩]
    -- a file that the delete removed answers like a missing one, before the delete too
    constructor
    · intro p hp hpre
      simp only [linePaths, mem_cons, not_mem_nil, or_false] at hp
      rcases hp with rfl | rfl | rfl
      · have hload : b.loadMessages other = .ok [] :=
          (hsame.messages).symm.trans (loadMessages_of_none (hgone _ hpre))
        exact readJsonlLines_of_decoded_nil hload
      · have hload : b.listCheckpoints other = .ok [] :=
          (hsame.checkpoints).symm.trans (listCheckpoints_of_none (hgone _ hpre))
        exact readJsonlLines_of_decoded_nil hload
      · have hload : b.loadPromptHistory other = .ok [] :=
          (hsame.promptHistory).symm.trans (loadPromptHistory_of_none (hgone _ hpre))
        exact readJsonlLines_of_decoded_nil hload
    · intro p hp hpre
      simp only [recordPaths, mem_cons, not_mem_nil, or_false] at hp
      rcases hp with rfl | rfl
      · have hload : b.loadCompaction other = .ok none :=
          (hsame.compaction).symm.trans (loadCompaction_of_none (hgone _ hpre))
        exact get_of_record_none hload
      · have hload : b.loadSessionMeta other = .ok none :=
          (hsame.sessionMeta).symm.trans (loadSessionMeta_of_none (hgone _ hpre))
        exact get_of_record_none hload
  · intro hapart
    have hget : ∀ name, (b.deleteSession sid).1.tree.get (sessionDir b.root other ++ [name]) =
        if b.tree.get (sessionDir b.root sid) = some .dir ∧
          sessionDir b.root sid <+: sessionDir b.root other ++ [name] then none
        else b.tree.get (sessionDir b.root other ++ [name]) :=
      fun name => get_deleteSession b sid (by simp)
    refine sameSession_of_reads hroot (fun p hp => ?_) fun p hp => ?_
    · obtain ⟨name, rfl⟩ : ∃ name, p = sessionDir b.root other ++ [name] := by
        refine childPaths_below ?_
        simp only [linePaths, childPaths, mem_cons, not_mem_nil, or_false] at hp ⊢
        tauto
      by_cases hinside : b.tree.get (sessionDir b.root sid) = some .dir ∧
          sessionDir b.root sid <+: sessionDir b.root other ++ [name]
      · have hgone := hget name
        rw [if_pos hinside] at hgone
        rw [(hapart hinside.1).1 _ hp hinside.2, readJsonlLines_of_none hgone]
      · exact readJsonlLines_congr ((hget name).trans (if_neg hinside))
    · obtain ⟨name, rfl⟩ : ∃ name, p = sessionDir b.root other ++ [name] := by
        simp only [recordPaths, mem_cons, not_mem_nil, or_false] at hp
        rcases hp with rfl | rfl
        · exact ⟨_, rfl⟩
        · exact ⟨_, rfl⟩
      rw [hget name]
      split
      · rename_i hinside
        exact ((hapart hinside.1).2 _ hp hinside.2).symm
      · rfl

/-- When a delete leaves nothing of its session behind and takes nothing else. -/
def DeletesAll : SessionBackend → SessionRecord → String → Prop
  | .memory m, record, _ => NoMemoryData m record.sessionId
  | .jsonl b, record, other => RegistersApart b record ∧ StoredApart b record.sessionId other
  | .sqlite _, _, _ => True

end DbClinic.Persistence
