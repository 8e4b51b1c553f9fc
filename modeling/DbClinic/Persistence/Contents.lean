import DbClinic.Persistence.FlatTree
import DbClinic.Persistence.DeleteSession

/-!
The contents of a store as functions of the session id, and the operations on
them that the writing calls amount to. Each backend is shown to keep some
contents through its calls: the memory backend adds, the JSONL backend adds and
touches the update time, the SQLite backend also replaces a checkpoint of the
same step. What the loads return is then read off the contents.
-/

namespace DbClinic.Persistence

open JsonlBackend List Function

/-- What is kept of each session, each list in the order of the calls. -/
structure Contents where
  metas : String → Option SessionRecord
  messages : String → List MessageRecord
  checkpoints : String → List Checkpoint
  prompts : String → List PromptHistoryRecord

namespace Contents

def empty : Contents := ⟨fun _ => none, fun _ => [], fun _ => [], fun _ => []⟩

def register (c : Contents) (record : SessionRecord) : Contents :=
  { c with metas := Function.update c.metas record.sessionId (some record) }

def touch (c : Contents) (sid : String) (time : Nat) : Contents :=
  { c with metas := Function.update c.metas sid
             ((c.metas sid).map fun record => { record with updatedAtMs := time }) }

def addMessage (c : Contents) (msg : MessageRecord) : Contents :=
  { c with messages := Function.update c.messages msg.sessionId
             (c.messages msg.sessionId ++ [msg]) }

def addCheckpoint (c : Contents) (checkpoint : Checkpoint) : Contents :=
  { c with checkpoints := Function.update c.checkpoints checkpoint.sessionId
             (c.checkpoints checkpoint.sessionId ++ [checkpoint]) }

def replaceCheckpoint (c : Contents) (checkpoint : Checkpoint) : Contents :=
  { c with checkpoints := Function.update c.checkpoints checkpoint.sessionId
             ((c.checkpoints checkpoint.sessionId).filter
               (fun old => old.stepIndex ≠ checkpoint.stepIndex) ++ [checkpoint]) }

def addPrompt (c : Contents) (record : PromptHistoryRecord) : Contents :=
  { c with prompts := Function.update c.prompts record.sessionId
             (c.prompts record.sessionId ++ [record]) }

def dropCheckpoints (c : Contents) (sid : String) : Contents :=
  { c with checkpoints := Function.update c.checkpoints sid [] }

end Contents

structure MemoryHolds (m : MemoryBackend) (c : Contents) : Prop where
  metas : ∀ sid, m.sessions.get sid = c.metas sid
  messages : ∀ sid, (m.messages.get sid).getD [] = c.messages sid
  checkpoints : ∀ sid, (m.checkpoints.get sid).getD [] = c.checkpoints sid
  prompts : ∀ sid, (m.promptHistory.get sid).getD [] = c.prompts sid

theorem memoryHolds_new : MemoryHolds .new .empty :=
  ⟨fun _ => rfl, fun _ => rfl, fun _ => rfl, fun _ => rfl⟩

variable {c : Contents} {j j' : JsonlBackend} {s : SqliteBackend} {m : MemoryBackend}
variable {sid : String} {record : SessionRecord} {α : Type}

variable {lists : String → List α} {x y : String} {content : List Line} {tmp : Option String}
variable {msg : MessageRecord} {checkpoint : Checkpoint} {numbers : List Nat}

/-- `entry(key).or_default().push(item)` adds to the list under the key. -/
theorem pushEntry_getD {map : KeyMap String (List α)} (h : ∀ sid, (map.get sid).getD [] = lists sid)
    (key : String) (item : α) (sid : String) :
    ((MemoryBackend.pushEntry map key item).get sid).getD [] =
      Function.update lists key (lists key ++ [item]) sid := by
  unfold MemoryBackend.pushEntry
  rw [KeyMap.get_insert]
  rcases eq_or_ne sid key with rfl | hne
  · rw [if_pos rfl, update_self, ← h]
    rfl
  · rw [if_neg hne, update_of_ne hne, h]

theorem MemoryHolds.saveSessionMeta (h : MemoryHolds m c) (record : SessionRecord) :
    MemoryHolds (m.saveSessionMeta record).1 (c.register record) := by
  refine ⟨fun sid => ?_, h.messages, h.checkpoints, h.prompts⟩
  change (m.sessions.insert record.sessionId record).get sid =
    Function.update c.metas record.sessionId (some record) sid
  rw [KeyMap.get_insert, update_apply, h.metas]

theorem MemoryHolds.appendMessage (h : MemoryHolds m c) (msg : MessageRecord) :
    MemoryHolds (m.appendMessage msg).1 (c.addMessage msg) :=
  ⟨h.metas, pushEntry_getD h.messages msg.sessionId msg, h.checkpoints, h.prompts⟩

theorem MemoryHolds.saveCheckpoint (h : MemoryHolds m c) (checkpoint : Checkpoint) :
    MemoryHolds (m.saveCheckpoint checkpoint).1 (c.addCheckpoint checkpoint) :=
  ⟨h.metas, h.messages, pushEntry_getD h.checkpoints checkpoint.sessionId checkpoint, h.prompts⟩

theorem MemoryHolds.savePromptHistory (h : MemoryHolds m c) (record : PromptHistoryRecord) :
    MemoryHolds (m.savePromptHistory record).1 (c.addPrompt record) :=
  ⟨h.metas, h.messages, h.checkpoints, pushEntry_getD h.prompts record.sessionId record⟩

theorem MemoryHolds.deleteCheckpoints (h : MemoryHolds m c) (sid : String) :
    MemoryHolds (m.deleteCheckpoints sid).1 (c.dropCheckpoints sid) := by
  refine ⟨h.metas, h.messages, fun sid' => ?_, h.prompts⟩
  change ((m.checkpoints.erase sid).get sid').getD [] = Function.update c.checkpoints sid [] sid'
  rw [KeyMap.get_erase, update_apply]
  split
  · rfl
  · exact h.checkpoints sid'

/-- The lines of the file `name` of the session `sid`. -/
def linesOf (j : JsonlBackend) (sid name : String) : List Line :=
  (j.tree.fileAt (sessionsDir j.root ++ [sid, name])).getD []

structure JsonlHolds (j : JsonlBackend) (c : Contents) : Prop where
  flat : Flat j
  metas : ∀ sid, j.tree.get (sessionsDir j.root ++ [sid, "meta.json"]) =
    (c.metas sid).map fun record => .file [.session record]
  messages : ∀ sid, linesOf j sid "messages.jsonl" = (c.messages sid).map .message
  checkpoints : ∀ sid, linesOf j sid "checkpoints.jsonl" = (c.checkpoints sid).map .checkpoint
  prompts : ∀ sid, linesOf j sid "prompt_history.jsonl" = (c.prompts sid).map .prompt

theorem linesOf_wrote (h : Wrote j j' x y content tmp) (sid name : String) (htmp : some name ≠ tmp) :
    linesOf j' sid name = if sid = x ∧ name = y then content else linesOf j sid name := by
  unfold linesOf FileTree.fileAt
  rw [h.root, h.items]
  by_cases hfile : sid = x ∧ name = y
  · rw [if_pos hfile, if_pos hfile]
    rfl
  · rw [if_neg hfile, if_neg (fun hboth => htmp hboth.2), if_neg hfile]

theorem getMeta_wrote (h : Wrote j j' x y content tmp) (hy : y ≠ "meta.json")
    (htmp : tmp ≠ some "meta.json") (sid : String) :
    j'.tree.get (sessionsDir j'.root ++ [sid, "meta.json"]) =
      j.tree.get (sessionsDir j.root ++ [sid, "meta.json"]) := by
  rw [h.root, h.items, if_neg (fun hboth => hy hboth.2.symm),
    if_neg (fun hboth => htmp hboth.2.symm)]

theorem JsonlHolds.writeMeta (h : JsonlHolds j c) (hsid : Path.IsName sid) (record : SessionRecord)
    (hwrote : Wrote j j' sid "meta.json" [.session record] (some "meta.tmp")) :
    JsonlHolds j' { c with metas := Function.update c.metas sid (some record) } := by
  have hlines : ∀ sid' name, name ≠ "meta.json" → name ≠ "meta.tmp" →
      linesOf j' sid' name = linesOf j sid' name := by
    intro sid' name hname htmp
    rw [linesOf_wrote hwrote sid' name (by simpa using htmp), if_neg (fun hboth => hname hboth.2)]
  refine ⟨hwrote.flat hsid h.flat, fun sid' => ?_, fun sid' => ?_, fun sid' => ?_, fun sid' => ?_⟩
  · rw [hwrote.root, hwrote.items]
    dsimp only
    rcases eq_or_ne sid' sid with rfl | hne
    · rw [if_pos ⟨rfl, rfl⟩, update_self]
      rfl
    · rw [if_neg (fun hboth => hne hboth.1), if_neg (fun hboth => hne hboth.1),
        update_of_ne hne]
      exact h.metas sid'
  · exact (hlines sid' _ (by decide) (by decide)).trans (h.messages sid')
  · exact (hlines sid' _ (by decide) (by decide)).trans (h.checkpoints sid')
  · exact (hlines sid' _ (by decide) (by decide)).trans (h.prompts sid')

theorem JsonlHolds.saveSessionMeta (h : JsonlHolds j c) (hsid : Path.IsName record.sessionId)
    (huser : record.username = none) :
    JsonlHolds (j.saveSessionMeta record).1 (c.register record) := by
  obtain ⟨t, ht, hmade⟩ := make_dir h.flat record.sessionId
  obtain ⟨t', hwrite, hwrote⟩ := atomicWrite_wrote h.flat (y := "meta.json") hmade rfl
    (by decide) [.session record]
  have hres : (j.saveSessionMeta record).1 = { j with tree := t' } := by
    simp only [JsonlBackend.saveSessionMeta, recordDir, huser, sessionDir_of_isName _ hsid, inDir,
      ht, metaPath]
    rw [hwrite]
  rw [hres]
  exact h.writeMeta hsid record hwrote

theorem JsonlHolds.addLine (h : JsonlHolds j c) {name : String} (hsid : Path.IsName sid)
    (hname : name ≠ "meta.json") (line : Line) :
    ∃ j', j.inDir (sessionDir j.root sid)
        (fun t => appendJsonlLine t (sessionDir j.root sid ++ [name]) line) = (j', .ok ()) ∧
      j'.root = j.root ∧ Flat j' ∧
      (∀ sid', j'.tree.get (sessionsDir j'.root ++ [sid', "meta.json"]) =
        j.tree.get (sessionsDir j.root ++ [sid', "meta.json"])) ∧
      ∀ sid' name', linesOf j' sid' name' =
        if sid' = sid ∧ name' = name then linesOf j sid name ++ [line]
        else linesOf j sid' name' := by
  obtain ⟨j', hwrite, hwrote⟩ := append_wrote h.flat sid name line
  refine ⟨j', ?_, hwrote.root, hwrote.flat hsid h.flat, getMeta_wrote hwrote hname (by simp),
    fun sid' name' => linesOf_wrote hwrote sid' name' (by simp)⟩
  rw [sessionDir_of_isName _ hsid]
  exact hwrite

theorem map_update {β : Type} (f : α → β) (lists : String → List α) (key sid : String) (item : α)
    (lines : List β) (hlines : lines = (lists sid).map f) :
    (if sid = key then (lists key).map f ++ [f item] else lines) =
      (Function.update lists key (lists key ++ [item]) sid).map f := by
  rw [update_apply]
  split
  · simp
  · exact hlines

theorem JsonlHolds.loadSessionMeta (h : JsonlHolds j c) (hsid : Path.IsName sid) :
    j.loadSessionMeta sid = .ok (c.metas sid) := by
  have hmeta := h.metas sid
  unfold JsonlBackend.loadSessionMeta FileTree.pathExists FileTree.readFile
  simp only [sessionDir_of_isName _ hsid, metaPath, append_assoc, cons_append,
    nil_append]
  rw [hmeta]
  cases c.metas sid with
  | none => rfl
  | some record => rfl

theorem JsonlHolds.appendMessage (h : JsonlHolds j c) (hsid : Path.IsName msg.sessionId)
    (hrecord : c.metas msg.sessionId = some record) :
    JsonlHolds (j.appendMessage msg).1
      ((c.addMessage msg).touch msg.sessionId msg.timestampMs) := by
  obtain ⟨j₁, hwrite, hroot, hflat, hmetas, hlines⟩ :=
    h.addLine hsid (show "messages.jsonl" ≠ "meta.json" by decide) (.message msg)
  have hadded : JsonlHolds j₁ (c.addMessage msg) := by
    refine ⟨hflat, fun sid => (hmetas sid).trans (h.metas sid), fun sid => ?_, fun sid => ?_,
      fun sid => ?_⟩
    · rw [hlines, h.messages]
      simp only [and_true]
      exact map_update Line.message c.messages _ sid msg _ (h.messages sid)
    · rw [hlines, if_neg (by simp)]
      exact h.checkpoints sid
    · rw [hlines, if_neg (by simp)]
      exact h.prompts sid
  have hload := hadded.loadSessionMeta hsid
  have hdir : j₁.tree.get (sessionsDir j₁.root ++ [msg.sessionId]) = some .dir := by
    have hmeta := hadded.metas msg.sessionId
    rw [show (c.addMessage msg).metas msg.sessionId = some record from hrecord] at hmeta
    exact FileTree.get_parent (n := "meta.json") (by simpa using hmeta)
  obtain ⟨t, hatomic, hwrote⟩ := atomicWrite_wrote hflat (y := "meta.json")
    (Made.here hflat hdir) rfl (by decide)
    [.session { record with updatedAtMs := msg.timestampMs }]
  have hres : (j.appendMessage msg).1 = { j₁ with tree := t } := by
    unfold JsonlBackend.appendMessage messagesPath
    simp only [hwrite, hload]
    rw [show (c.addMessage msg).metas msg.sessionId = some record from hrecord]
    rw [sessionDir_of_isName _ hsid, ← hroot]
    dsimp only [metaPath]
    rw [hatomic]
  rw [hres]
  have hwritten := hadded.writeMeta hsid { record with updatedAtMs := msg.timestampMs } hwrote
  unfold Contents.touch
  rw [show (c.addMessage msg).metas msg.sessionId = some record from hrecord]
  exact hwritten

theorem JsonlHolds.saveCheckpoint (h : JsonlHolds j c) (hsid : Path.IsName checkpoint.sessionId) :
    JsonlHolds (j.saveCheckpoint checkpoint).1 (c.addCheckpoint checkpoint) := by
  obtain ⟨j', hwrite, -, hflat, hmetas, hlines⟩ :=
    h.addLine hsid (show "checkpoints.jsonl" ≠ "meta.json" by decide) (.checkpoint checkpoint)
  unfold JsonlBackend.saveCheckpoint checkpointsPath
  rw [hwrite]
  refine ⟨hflat, fun sid => (hmetas sid).trans (h.metas sid), fun sid => ?_, fun sid => ?_,
    fun sid => ?_⟩
  · rw [hlines, if_neg (by simp)]
    exact h.messages sid
  · rw [hlines, h.checkpoints]
    simp only [and_true]
    exact map_update Line.checkpoint c.checkpoints _ sid checkpoint _ (h.checkpoints sid)
  · rw [hlines, if_neg (by simp)]
    exact h.prompts sid

theorem JsonlHolds.savePromptHistory (h : JsonlHolds j c) {record : PromptHistoryRecord}
    (hsid : Path.IsName record.sessionId) :
    JsonlHolds (j.savePromptHistory record).1 (c.addPrompt record) := by
  obtain ⟨j', hwrite, -, hflat, hmetas, hlines⟩ :=
    h.addLine hsid (show "prompt_history.jsonl" ≠ "meta.json" by decide) (.prompt record)
  unfold JsonlBackend.savePromptHistory promptHistoryPath
  rw [hwrite]
  refine ⟨hflat, fun sid => (hmetas sid).trans (h.metas sid), fun sid => ?_, fun sid => ?_,
    fun sid => ?_⟩
  · rw [hlines, if_neg (by simp)]
    exact h.messages sid
  · rw [hlines, if_neg (by simp)]
    exact h.checkpoints sid
  · rw [hlines, h.prompts]
    simp only [and_true]
    exact map_update Line.prompt c.prompts _ sid record _ (h.prompts sid)

theorem JsonlHolds.deleteCheckpoints (h : JsonlHolds j c) (hsid : Path.IsName sid) :
    JsonlHolds (j.deleteCheckpoints sid).1 (c.dropCheckpoints sid) := by
  have hpath : checkpointsPath (sessionDir j.root sid) =
      sessionsDir j.root ++ [sid, "checkpoints.jsonl"] := by
    simp [checkpointsPath, sessionDir_of_isName _ hsid]
  have hdrop : ∀ {lines : String → List Line}, lines sid = [] →
      (∀ sid', sid' ≠ sid → lines sid' = (c.checkpoints sid').map .checkpoint) →
      ∀ sid', lines sid' = ((c.dropCheckpoints sid).checkpoints sid').map .checkpoint := by
    intro lines hself hother sid'
    change lines sid' = (Function.update c.checkpoints sid [] sid').map _
    rcases eq_or_ne sid' sid with rfl | hne
    · rw [hself, update_self]
      rfl
    · rw [update_of_ne hne]
      exact hother sid' hne
  unfold JsonlBackend.deleteCheckpoints
  rw [hpath]
  dsimp only
  cases hfile : j.tree.get (sessionsDir j.root ++ [sid, "checkpoints.jsonl"]) with
  | none =>
    simp only [FileTree.pathExists, hfile, Option.isSome_none, Bool.false_eq_true, if_false]
    refine ⟨h.flat, h.metas, h.messages, hdrop ?_ fun sid' _ => h.checkpoints sid', h.prompts⟩
    simp [linesOf, FileTree.fileAt, hfile]
  | some node =>
    cases node with
    | dir => exact absurd hfile (h.flat.files sid _)
    | file lines =>
      simp only [FileTree.pathExists, FileTree.removeFile, hfile, Option.isSome_some, if_true]
      have hget := FileTree.get_prune_file hfile
      have hlines : ∀ sid' name, ¬ (sid' = sid ∧ name = "checkpoints.jsonl") →
          linesOf { j with
              tree := j.tree.prune (sessionsDir j.root ++ [sid, "checkpoints.jsonl"]) }
            sid' name = linesOf j sid' name := by
        intro sid' name hne
        unfold linesOf FileTree.fileAt
        dsimp only
        rw [hget, if_neg (by simpa using hne)]
      refine ⟨⟨?_, fun x v hv => ?_, fun x y hdir => ?_⟩, fun sid' => ?_, fun sid' => ?_,
        hdrop ?_ fun sid' hne => ?_, fun sid' => ?_⟩
      · dsimp only
        rw [hget, if_neg]
        · exact h.flat.base
        · intro heq
          simpa using congrArg List.length heq
      · dsimp only at hv
        rw [hget] at hv
        split at hv
        · cases hv
        · exact h.flat.dirs x v hv
      · dsimp only at hdir
        rw [hget] at hdir
        split at hdir
        · cases hdir
        · exact h.flat.files x y hdir
      · dsimp only
        rw [hget, if_neg (by simp)]
        exact h.metas sid'
      · rw [hlines sid' _ (by simp)]
        exact h.messages sid'
      · unfold linesOf FileTree.fileAt
        dsimp only
        rw [hget, if_pos rfl]
        rfl
      · rw [hlines sid' _ (fun hboth => hne hboth.1)]
        exact h.checkpoints sid'
      · rw [hlines sid' _ (by simp)]
        exact h.prompts sid'

structure SqliteHolds (s : SqliteBackend) (c : Contents) : Prop where
  metas : ∀ sid, s.sessionMeta.get sid = c.metas sid
  messages : ∀ sid, s.messages.select (fun m => m.sessionId = sid) = c.messages sid
  checkpoints : ∀ sid, s.checkpoints.select (fun cp => cp.sessionId = sid) = c.checkpoints sid
  prompts : ∀ sid, s.promptHistory.select (fun p => p.sessionId = sid) = c.prompts sid

theorem sqliteHolds_new : SqliteHolds .new .empty :=
  ⟨fun _ => rfl, fun _ => rfl, fun _ => rfl, fun _ => rfl⟩

theorem select_insert_update {t : Table α} {session : α → String} (row : α) (sid : String)
    (h : t.select (fun a => session a = sid) = lists sid) :
    (t.insert row).select (fun a => session a = sid) =
      Function.update lists (session row) (lists (session row) ++ [row]) sid := by
  rw [Table.select_insert, h, update_apply]
  rcases eq_or_ne sid (session row) with rfl | hne
  · simp
  · simp [hne, hne.symm]

theorem SqliteHolds.saveSessionMeta (h : SqliteHolds s c) (hnew : c.metas record.sessionId = none)
    (hfits : [record.createdAtMs, record.updatedAtMs].all fitsColumn = true) :
    SqliteHolds (s.saveSessionMeta record).1 (c.register record) := by
  have hsaved : (s.saveSessionMeta record).1 =
      { s with sessionMeta := s.sessionMeta.insert record.sessionId record } := by
    simp [SqliteBackend.saveSessionMeta, hfits, SqliteBackend.deleteMetaRow, h.metas, hnew]
  rw [hsaved]
  refine ⟨fun sid => ?_, h.messages, h.checkpoints, h.prompts⟩
  change _ = Function.update c.metas record.sessionId (some record) sid
  rw [KeyMap.get_insert, update_apply, h.metas]

theorem saveSessionMeta_of_unfit (s : SqliteBackend)
    (hfits : [record.createdAtMs, record.updatedAtMs].all fitsColumn = false) :
    (s.saveSessionMeta record).1 = s := by
  simp [SqliteBackend.saveSessionMeta, hfits]

theorem insertChild_of_unfit (s : SqliteBackend) (sid : String)
    (run : SqliteBackend → SqliteBackend) (hfits : numbers.all fitsColumn = false) :
    (s.insertChild numbers sid run).1 = s := by
  simp [SqliteBackend.insertChild, hfits]

theorem SqliteHolds.insertChild (h : SqliteHolds s c) (run : SqliteBackend → SqliteBackend)
    (hsession : c.metas sid ≠ none) (hfits : numbers.all fitsColumn = true) :
    (s.insertChild numbers sid run).1 = run s := by
  have hsome : (s.sessionMeta.get sid).isNone = false := by
    rw [h.metas]
    cases hmeta : c.metas sid with
    | none => exact absurd hmeta hsession
    | some record => rfl
  simp [SqliteBackend.insertChild, hfits, hsome]

theorem SqliteHolds.appendMessage (h : SqliteHolds s c) (hsession : c.metas msg.sessionId ≠ none)
    (hfits : [msg.timestampMs, msg.stepIndex].all fitsColumn = true) :
    SqliteHolds (s.appendMessage msg).1
      ((c.addMessage msg).touch msg.sessionId msg.timestampMs) := by
  unfold SqliteBackend.appendMessage
  rw [h.insertChild _ hsession hfits]
  have hinserted : ∀ sid, (s.messages.insert msg).select (fun m => m.sessionId = sid) =
      (c.addMessage msg).messages sid :=
    fun sid => select_insert_update msg sid (h.messages sid)
  unfold SqliteBackend.touchMeta
  dsimp only
  rw [h.metas]
  obtain ⟨record, hrecord⟩ := Option.ne_none_iff_exists'.mp hsession
  rw [hrecord]
  refine ⟨fun sid => ?_, hinserted, h.checkpoints, h.prompts⟩
  change _ = Function.update c.metas msg.sessionId ((c.metas msg.sessionId).map _) sid
  rw [hrecord, KeyMap.get_insert, update_apply, h.metas]
  rfl

theorem SqliteHolds.saveCheckpoint (h : SqliteHolds s c)
    (hsession : c.metas checkpoint.sessionId ≠ none)
    (hfits : [checkpoint.stepIndex, checkpoint.timestampMs, checkpoint.messageCount].all
      fitsColumn = true) :
    SqliteHolds (s.saveCheckpoint checkpoint).1 (c.replaceCheckpoint checkpoint) := by
  unfold SqliteBackend.saveCheckpoint
  rw [h.insertChild _ hsession hfits]
  refine ⟨h.metas, h.messages, fun sid => ?_, h.prompts⟩
  change Table.select (Table.insert _ checkpoint) _ =
    Function.update c.checkpoints checkpoint.sessionId _ sid
  rw [Table.select_insert, Table.select_deleteWhere, update_apply]
  rcases eq_or_ne sid checkpoint.sessionId with rfl | hne
  · rw [if_pos rfl, ← h.checkpoints]
    unfold Table.select
    rw [filter_filter]
    simp only [decide_true, if_true, append_cancel_right_eq]
    apply filter_congr
    intro cp _
    by_cases hcp : cp.sessionId = checkpoint.sessionId
    · simp [hcp]
    · simp [hcp]
  · have hrow : decide (checkpoint.sessionId = sid) = false := by simpa using hne.symm
    rw [if_neg hne, ← h.checkpoints, hrow]
    simp only [Bool.false_eq_true, if_false, append_nil]
    unfold Table.select
    apply filter_congr
    intro cp _
    by_cases hcp : cp.sessionId = sid
    · simp [hcp, hne]
    · simp [hcp]

theorem SqliteHolds.savePromptHistory (h : SqliteHolds s c) {record : PromptHistoryRecord}
    (hsession : c.metas record.sessionId ≠ none)
    (hfits : [record.timestampMs].all fitsColumn = true) :
    SqliteHolds (s.savePromptHistory record).1 (c.addPrompt record) := by
  unfold SqliteBackend.savePromptHistory
  rw [h.insertChild _ hsession hfits]
  exact ⟨h.metas, h.messages, h.checkpoints,
    fun sid => select_insert_update record sid (h.prompts sid)⟩

theorem SqliteHolds.deleteCheckpoints (h : SqliteHolds s c) (sid : String) :
    SqliteHolds (s.deleteCheckpoints sid).1 (c.dropCheckpoints sid) := by
  refine ⟨h.metas, h.messages, fun sid' => ?_, h.prompts⟩
  change Table.select (Table.deleteWhere _ _) _ = Function.update c.checkpoints sid [] sid'
  rcases eq_or_ne sid' sid with rfl | hne
  · rw [update_self]
    exact select_gone s.checkpoints Checkpoint.sessionId sid'
  · rw [update_of_ne hne, ← h.checkpoints]
    exact select_deleteWhere_other s.checkpoints Checkpoint.sessionId hne

end DbClinic.Persistence
