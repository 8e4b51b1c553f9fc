import DbClinic.Lib.Transition
import DbClinic.Persistence.Contents

/-!
The three backends given the same calls. They keep the same contents, and give
the same answers, as long as the calls come in the order in which the SQLite
backend sorts: steps of messages and times of prompts never decrease, steps of
checkpoints increase. The metadata also has to be appended to at the time it
was saved with, because the memory backend does not touch it.
-/

namespace DbClinic.Persistence

open JsonlBackend Transition List Function

structure Answers where
  messages : Except PersistenceError (List MessageRecord)
  messagesFromStep : Except PersistenceError (List MessageRecord)
  checkpoints : Except PersistenceError (List Checkpoint)
  latestCheckpoint : Except PersistenceError (Option Checkpoint)
  checkpointAtStep : Except PersistenceError (Option Checkpoint)
  promptHistory : Except PersistenceError (List PromptHistoryRecord)
  sessionMeta : Except PersistenceError (Option SessionRecord)

def SessionBackend.answers (b : SessionBackend) (sid : String) (step : Nat) : Answers where
  messages := b.loadMessages sid
  messagesFromStep := b.loadMessagesFromStep sid step
  checkpoints := b.listCheckpoints sid
  latestCheckpoint := b.loadLatestCheckpoint sid
  checkpointAtStep := b.loadCheckpointAtStep sid step
  promptHistory := b.loadPromptHistory sid
  sessionMeta := b.loadSessionMeta sid

namespace Contents

def answers (c : Contents) (sid : String) (step : Nat) : Answers where
  messages := .ok (c.messages sid)
  messagesFromStep := .ok ((c.messages sid).filter fun m => step ≤ m.stepIndex)
  checkpoints := .ok (c.checkpoints sid)
  latestCheckpoint := .ok (c.checkpoints sid).getLast?
  checkpointAtStep := .ok ((c.checkpoints sid).find? fun cp => cp.stepIndex = step)
  promptHistory := .ok (c.prompts sid)
  sessionMeta := .ok (c.metas sid)

def sortedAnswers (c : Contents) (sid : String) (step : Nat) : Answers where
  messages := .ok (sortByKey MessageRecord.stepIndex (c.messages sid))
  messagesFromStep := .ok (sortByKey MessageRecord.stepIndex
    ((c.messages sid).filter fun m => step ≤ m.stepIndex))
  checkpoints := .ok (sortByKey Checkpoint.stepIndex (c.checkpoints sid))
  latestCheckpoint := .ok (sortByKey Checkpoint.stepIndex (c.checkpoints sid)).getLast?
  checkpointAtStep := .ok ((c.checkpoints sid).find? fun cp => cp.stepIndex = step)
  promptHistory := .ok (sortByKey PromptHistoryRecord.timestampMs (c.prompts sid))
  sessionMeta := .ok (c.metas sid)

end Contents

variable {c : Contents} {α : Type} {items : List α} {key : α → Nat} {call : SessionBackend.Call}

theorem MemoryHolds.answers {m : MemoryBackend} (h : MemoryHolds m c) (sid : String) (step : Nat) :
    (SessionBackend.memory m).answers sid step = c.answers sid step := by
  have hbind : ∀ {β : Type} (f : List Checkpoint → Option β), f [] = none →
      (m.checkpoints.get sid).bind f = f (c.checkpoints sid) := by
    intro β f hf
    rw [← h.checkpoints]
    cases m.checkpoints.get sid with
    | none => exact hf.symm
    | some list => rfl
  unfold SessionBackend.answers Contents.answers
  congr 1
  · exact congrArg Except.ok (h.messages sid)
  · change Except.ok (((m.messages.get sid).getD []).filter _) = _
    rw [h.messages]
  · exact congrArg Except.ok (h.checkpoints sid)
  · exact congrArg Except.ok (hbind List.getLast? rfl)
  · exact congrArg Except.ok (hbind (List.find? fun cp => cp.stepIndex = step) rfl)
  · exact congrArg Except.ok (h.prompts sid)
  · exact congrArg Except.ok (h.metas sid)

theorem decode_lines {t : LineTree} {p : Path} (wrap : α → Line)
    (decode : Line → Except PersistenceError α) (hdecode : ∀ a, decode (wrap a) = .ok a)
    (hblank : ∀ a, wrap a ≠ .other "") (hdir : t.get p ≠ some .dir)
    (hlines : (t.fileAt p).getD [] = items.map wrap) :
    (readJsonlLines t p >>= fun lines => lines.mapM decode) = .ok items := by
  have hread : readJsonlLines t p = .ok (items.map wrap) := by
    unfold FileTree.fileAt at hlines
    unfold readJsonlLines FileTree.pathExists FileTree.readFile
    cases hget : t.get p with
    | none =>
      rw [hget] at hlines
      rw [← hlines]
      rfl
    | some node =>
      cases node with
      | dir => exact absurd hget hdir
      | file lines =>
        rw [hget] at hlines
        have hlines : lines = items.map wrap := hlines
        rw [hlines]
        change Except.ok ((items.map wrap).filter fun line => line ≠ .other "") = _
        rw [filter_eq_self.mpr]
        intro line hline
        obtain ⟨a, -, rfl⟩ := mem_map.mp hline
        exact decide_eq_true (hblank a)
  rw [hread]
  change (items.map wrap).mapM decode = .ok items
  clear hread hlines
  induction items with
  | nil => rfl
  | cons a rest ih =>
    rw [map_cons, mapM_cons, hdecode, ih]
    rfl

variable {j : JsonlBackend} {sid : String} {item : α} {checkpoint : Checkpoint} {t' : Trio}

theorem JsonlHolds.answers (h : JsonlHolds j c) (hsid : Path.IsName sid) (step : Nat) :
    (SessionBackend.jsonl j).answers sid step = c.answers sid step := by
  have hpath : ∀ name, sessionDir j.root sid ++ [name] = sessionsDir j.root ++ [sid, name] := by
    intro name
    simp [sessionDir_of_isName _ hsid]
  have hmsg : j.loadMessages sid = .ok (c.messages sid) := by
    unfold JsonlBackend.loadMessages messagesPath
    rw [hpath]
    exact decode_lines Line.message Line.asMessage (fun _ => rfl) (by simp)
      (h.flat.files sid _) (h.messages sid)
  have hcp : j.listCheckpoints sid = .ok (c.checkpoints sid) := by
    unfold JsonlBackend.listCheckpoints checkpointsPath
    rw [hpath]
    exact decode_lines Line.checkpoint Line.asCheckpoint (fun _ => rfl) (by simp)
      (h.flat.files sid _) (h.checkpoints sid)
  have hprompt : j.loadPromptHistory sid = .ok (c.prompts sid) := by
    unfold JsonlBackend.loadPromptHistory promptHistoryPath
    rw [hpath]
    exact decode_lines Line.prompt Line.asPrompt (fun _ => rfl) (by simp)
      (h.flat.files sid _) (h.prompts sid)
  unfold SessionBackend.answers Contents.answers
  congr 1
  · change j.loadMessagesFromStep sid step = _
    unfold JsonlBackend.loadMessagesFromStep
    rw [hmsg]
    rfl
  · change j.loadLatestCheckpoint sid = _
    unfold JsonlBackend.loadLatestCheckpoint
    rw [hcp]
    rfl
  · change j.loadCheckpointAtStep sid step = _
    unfold JsonlBackend.loadCheckpointAtStep
    rw [hcp]
    rfl
  · exact h.loadSessionMeta hsid

theorem SqliteHolds.answers {s : SqliteBackend} (h : SqliteHolds s c) (sid : String) {step : Nat}
    (hstep : fitsColumn step = true) :
    (SessionBackend.sqlite s).answers sid step = c.sortedAnswers sid step := by
  have hselect : ∀ {α : Type} (t : Table α) (p q : α → Bool),
      t.select (fun a => p a && q a) = (t.select p).filter q := by
    intro α t p q
    unfold Table.select
    rw [filter_filter]
    simp only [Bool.and_comm]
  unfold SessionBackend.answers Contents.sortedAnswers
  congr 1
  · exact congrArg (fun rows => Except.ok (sortByKey MessageRecord.stepIndex rows))
      (h.messages sid)
  · change (if fitsColumn step then _ else _) = _
    rw [if_pos hstep, hselect, h.messages]
  · exact congrArg (fun rows => Except.ok (sortByKey Checkpoint.stepIndex rows))
      (h.checkpoints sid)
  · exact congrArg (fun rows => Except.ok (sortByKey Checkpoint.stepIndex rows).getLast?)
      (h.checkpoints sid)
  · change (if fitsColumn step then _ else _) = _
    rw [if_pos hstep, hselect, h.checkpoints, head?_filter]
  · exact congrArg (fun rows => Except.ok (sortByKey PromptHistoryRecord.timestampMs rows))
      (h.prompts sid)
  · exact congrArg Except.ok (h.metas sid)

/-- Each list is in the order of its keys. -/
structure Contents.Ordered (c : Contents) : Prop where
  messages : ∀ sid, (c.messages sid).Pairwise fun a b => a.stepIndex ≤ b.stepIndex
  checkpoints : ∀ sid, (c.checkpoints sid).Pairwise fun a b => a.stepIndex < b.stepIndex
  prompts : ∀ sid, (c.prompts sid).Pairwise fun a b => a.timestampMs ≤ b.timestampMs

theorem sortByKey_of_pairwise (h : items.Pairwise fun a b => key a ≤ key b) :
    sortByKey key items = items :=
  h.insertionSort_eq

theorem pairwise_of_sortByKey (h : sortByKey key items = items) :
    items.Pairwise fun a b => key a ≤ key b := by
  have hsorted := pairwise_insertionSort (fun a b => key a ≤ key b) items
  unfold sortByKey at h
  rwa [h] at hsorted

theorem Contents.Ordered.answers (h : c.Ordered) (sid : String) (step : Nat) :
    c.sortedAnswers sid step = c.answers sid step := by
  have hcp : sortByKey Checkpoint.stepIndex (c.checkpoints sid) = c.checkpoints sid :=
    sortByKey_of_pairwise ((h.checkpoints sid).imp Nat.le_of_lt)
  unfold Contents.sortedAnswers Contents.answers
  congr 1
  · exact congrArg Except.ok (sortByKey_of_pairwise (h.messages sid))
  · exact congrArg Except.ok (sortByKey_of_pairwise ((h.messages sid).filter _))
  · exact congrArg Except.ok hcp
  · rw [hcp]
  · exact congrArg Except.ok (sortByKey_of_pairwise (h.prompts sid))

/-- The three backends after the same calls, and the calls as contents: each
record as it was saved, each list in the order of the calls. -/
structure Trio where
  memory : MemoryBackend
  jsonl : JsonlBackend
  sqlite : SqliteBackend
  log : Contents

/-- The calls a sequence consists of: sessions are registered once and without
a user, the other calls are on registered ones. -/
def Trio.covers (t : Trio) : SessionBackend.Call → Bool
  | .saveSessionMeta record =>
    record.username = none ∧ t.log.metas record.sessionId = none
  | .appendMessage msg => (t.log.metas msg.sessionId).isSome
  | .saveCheckpoint checkpoint => (t.log.metas checkpoint.sessionId).isSome
  | .savePromptHistory record => (t.log.metas record.sessionId).isSome
  | .deleteCheckpoints sid => (t.log.metas sid).isSome
  | _ => false

def Contents.record (c : Contents) : SessionBackend.Call → Contents
  | .saveSessionMeta record => c.register record
  | .appendMessage msg => c.addMessage msg
  | .saveCheckpoint checkpoint => c.addCheckpoint checkpoint
  | .savePromptHistory record => c.addPrompt record
  | .deleteCheckpoints sid => c.dropCheckpoints sid
  | _ => c

def Trio.apply (t : Trio) (call : SessionBackend.Call) : Trio :=
  let log := t.log.record call
  match call with
  | .saveSessionMeta record =>
    ⟨(t.memory.saveSessionMeta record).1, (t.jsonl.saveSessionMeta record).1,
      (t.sqlite.saveSessionMeta record).1, log⟩
  | .appendMessage msg =>
    ⟨(t.memory.appendMessage msg).1, (t.jsonl.appendMessage msg).1,
      (t.sqlite.appendMessage msg).1, log⟩
  | .saveCheckpoint checkpoint =>
    ⟨(t.memory.saveCheckpoint checkpoint).1, (t.jsonl.saveCheckpoint checkpoint).1,
      (t.sqlite.saveCheckpoint checkpoint).1, log⟩
  | .savePromptHistory record =>
    ⟨(t.memory.savePromptHistory record).1, (t.jsonl.savePromptHistory record).1,
      (t.sqlite.savePromptHistory record).1, log⟩
  | .saveCompaction record =>
    ⟨(t.memory.saveCompaction record).1, (t.jsonl.saveCompaction record).1,
      (t.sqlite.saveCompaction record).1, log⟩
  | .deleteSession sid =>
    ⟨(t.memory.deleteSession sid).1, (t.jsonl.deleteSession sid).1,
      (t.sqlite.deleteSession sid).1, log⟩
  | .deleteCheckpoints sid =>
    ⟨(t.memory.deleteCheckpoints sid).1, (t.jsonl.deleteCheckpoints sid).1,
      (t.sqlite.deleteCheckpoints sid).1, log⟩

def Trio.step (t : Trio) (call : SessionBackend.Call) : Option Trio :=
  if t.covers call then some (t.apply call) else none

/-- The three backends answer every question alike: about every session, and
about a name that none has. -/
def Interchangeable (t : Trio) : Prop :=
  ∀ sid step, (t.log.metas sid).isSome = true ∨ Path.IsName sid → fitsColumn step = true →
    (SessionBackend.memory t.memory).answers sid step =
      (SessionBackend.jsonl t.jsonl).answers sid step ∧
    (SessionBackend.memory t.memory).answers sid step =
      (SessionBackend.sqlite t.sqlite).answers sid step

/-- The ids are single path components, as the JSONL backend makes directory
names of them. -/
def Named : SessionBackend.Call → Prop
  | .saveSessionMeta record => Path.IsName record.sessionId
  | _ => True

def InOrder (t : Trio) : SessionBackend.Call → Prop
  | .saveSessionMeta record =>
    Path.IsName record.sessionId ∧
      [record.createdAtMs, record.updatedAtMs].all fitsColumn = true
  | .appendMessage msg =>
    [msg.timestampMs, msg.stepIndex].all fitsColumn = true ∧
      (∀ m ∈ t.log.messages msg.sessionId, m.stepIndex ≤ msg.stepIndex) ∧
      ∀ record ∈ t.log.metas msg.sessionId, record.updatedAtMs = msg.timestampMs
  | .saveCheckpoint checkpoint =>
    [checkpoint.stepIndex, checkpoint.timestampMs, checkpoint.messageCount].all
        fitsColumn = true ∧
      ∀ cp ∈ t.log.checkpoints checkpoint.sessionId, cp.stepIndex < checkpoint.stepIndex
  | .savePromptHistory record =>
    [record.timestampMs].all fitsColumn = true ∧
      ∀ p ∈ t.log.prompts record.sessionId, p.timestampMs ≤ record.timestampMs
  | _ => True

structure TrioInv (t : Trio) : Prop where
  memory : MemoryHolds t.memory t.log
  jsonl : JsonlHolds t.jsonl t.log
  sqlite : SqliteHolds t.sqlite t.log
  ordered : t.log.Ordered
  names : ∀ sid, (t.log.metas sid).isSome = true → Path.IsName sid

variable {t : Trio}

theorem TrioInv.interchangeable (h : TrioInv t) : Interchangeable t := by
  intro sid step hsid hstep
  have hname : Path.IsName sid := hsid.elim (h.names sid) id
  rw [h.memory.answers, h.jsonl.answers hname, h.sqlite.answers sid hstep, h.ordered.answers]
  exact ⟨rfl, rfl⟩

theorem pairwise_add {r : α → α → Prop} {lists : String → List α} {key : String}
    (h : ∀ sid, (lists sid).Pairwise r) (hitem : ∀ a ∈ lists key, r a item) (sid : String) :
    (Function.update lists key (lists key ++ [item]) sid).Pairwise r := by
  rcases eq_or_ne sid key with rfl | hne
  · rw [update_self, pairwise_append]
    refine ⟨h sid, pairwise_singleton _ _, fun a ha b hb => ?_⟩
    rw [mem_singleton.mp hb]
    exact hitem a ha
  · rw [update_of_ne hne]
    exact h sid

theorem Contents.touch_of_same {time : Nat} (h : ∀ record ∈ c.metas sid, record.updatedAtMs = time) :
    c.touch sid time = c := by
  have hsame : (c.metas sid).map (fun record => { record with updatedAtMs := time }) =
      c.metas sid := by
    cases hmeta : c.metas sid with
    | none => rfl
    | some record =>
      have htime := h record hmeta
      subst htime
      rfl
  unfold Contents.touch
  rw [hsame, update_eq_self]

theorem Contents.replaceCheckpoint_of_new
    (h : ∀ cp ∈ c.checkpoints checkpoint.sessionId, cp.stepIndex ≠ checkpoint.stepIndex) :
    c.replaceCheckpoint checkpoint = c.addCheckpoint checkpoint := by
  have hsame : (c.checkpoints checkpoint.sessionId).filter
      (fun old => old.stepIndex ≠ checkpoint.stepIndex) = c.checkpoints checkpoint.sessionId :=
    filter_eq_self.mpr fun cp hcp => decide_eq_true (h cp hcp)
  unfold Contents.replaceCheckpoint Contents.addCheckpoint
  rw [hsame]

theorem TrioInv.step (h : TrioInv t) (hstep : t.step call = some t') (hok : InOrder t call) :
    TrioInv t' := by
  unfold Trio.step at hstep
  split at hstep
  · rename_i hcovers
    cases hstep
    cases call with
    | saveSessionMeta record =>
      obtain ⟨huser, hnew⟩ := of_decide_eq_true hcovers
      obtain ⟨hname, hfits⟩ := hok
      refine ⟨h.memory.saveSessionMeta record, h.jsonl.saveSessionMeta hname huser,
        h.sqlite.saveSessionMeta hnew hfits,
        ⟨h.ordered.messages, h.ordered.checkpoints, h.ordered.prompts⟩, fun sid hsid => ?_⟩
      change (Function.update t.log.metas record.sessionId (some record) sid).isSome = true
        at hsid
      rcases eq_or_ne sid record.sessionId with rfl | hne
      · exact hname
      · rw [update_of_ne hne] at hsid
        exact h.names sid hsid
    | appendMessage msg =>
      obtain ⟨hfits, hsteps, htime⟩ := hok
      have hname := h.names msg.sessionId hcovers
      obtain ⟨record, hrecord⟩ := Option.isSome_iff_exists.mp hcovers
      have htouch : (t.log.addMessage msg).touch msg.sessionId msg.timestampMs =
          t.log.addMessage msg := Contents.touch_of_same htime
      have hjsonl := h.jsonl.appendMessage hname hrecord
      have hsqlite := h.sqlite.appendMessage (by simp [hrecord]) hfits
      rw [htouch] at hjsonl hsqlite
      exact ⟨h.memory.appendMessage msg, hjsonl, hsqlite,
        ⟨pairwise_add h.ordered.messages hsteps, h.ordered.checkpoints, h.ordered.prompts⟩,
        h.names⟩
    | saveCheckpoint checkpoint =>
      obtain ⟨hfits, hsteps⟩ := hok
      have hname := h.names checkpoint.sessionId hcovers
      obtain ⟨record, hrecord⟩ := Option.isSome_iff_exists.mp hcovers
      have hsqlite := h.sqlite.saveCheckpoint (by simp [hrecord]) hfits
      rw [Contents.replaceCheckpoint_of_new fun cp hcp => Nat.ne_of_lt (hsteps cp hcp)]
        at hsqlite
      exact ⟨h.memory.saveCheckpoint checkpoint, h.jsonl.saveCheckpoint hname, hsqlite,
        ⟨h.ordered.messages, pairwise_add h.ordered.checkpoints hsteps, h.ordered.prompts⟩,
        h.names⟩
    | savePromptHistory record =>
      obtain ⟨hfits, htimes⟩ := hok
      have hname := h.names record.sessionId hcovers
      obtain ⟨old, hold⟩ := Option.isSome_iff_exists.mp hcovers
      exact ⟨h.memory.savePromptHistory record, h.jsonl.savePromptHistory hname,
        h.sqlite.savePromptHistory (by simp [hold]) hfits,
        ⟨h.ordered.messages, h.ordered.checkpoints, pairwise_add h.ordered.prompts htimes⟩,
        h.names⟩
    | deleteCheckpoints sid =>
      have hname := h.names sid hcovers
      refine ⟨h.memory.deleteCheckpoints sid, h.jsonl.deleteCheckpoints hname,
        h.sqlite.deleteCheckpoints sid,
        ⟨h.ordered.messages, fun sid' => ?_, h.ordered.prompts⟩, h.names⟩
      change (Function.update t.log.checkpoints sid [] sid').Pairwise _
      rcases eq_or_ne sid' sid with rfl | hne
      · rw [update_self]
        exact List.Pairwise.nil
      · rw [update_of_ne hne]
        exact h.ordered.checkpoints sid'
    | saveCompaction _ => cases hcovers
    | deleteSession _ => cases hcovers
  · cases hstep

theorem length_sortByKey (key : α → Nat) (items : List α) :
    (sortByKey key items).length = items.length :=
  (sortByKey_perm key items).length_eq

theorem le_of_sortByKey_concat (h : sortByKey key (items ++ [item]) = items ++ [item]) :
    ∀ a ∈ items, key a ≤ key item := by
  obtain ⟨-, -, hlast⟩ := pairwise_append.mp (pairwise_of_sortByKey h)
  exact fun a ha => hlast a ha item (mem_singleton.mpr rfl)

theorem append_bad (h : TrioInv t) {msg : MessageRecord}
    (hcovers : t.covers (.appendMessage msg) = true) (hbad : ¬ InOrder t (.appendMessage msg)) :
    ¬ Interchangeable (t.apply (.appendMessage msg)) := by
  intro hagree
  have hname := h.names msg.sessionId hcovers
  obtain ⟨record, hrecord⟩ := Option.isSome_iff_exists.mp hcovers
  obtain ⟨hjsonl, hsqlite⟩ := hagree msg.sessionId 0 (.inr hname) rfl
  have hmemory := (h.memory.appendMessage msg).answers msg.sessionId 0
  have hadded : ((t.log.addMessage msg).answers msg.sessionId 0).messages =
      .ok (t.log.messages msg.sessionId ++ [msg]) := by
    simp [Contents.answers, Contents.addMessage]
  cases hfits : [msg.timestampMs, msg.stepIndex].all fitsColumn with
  | false =>
    have hsame : (t.sqlite.appendMessage msg).1 = t.sqlite := insertChild_of_unfit _ _ _ hfits
    have hmsgs := congrArg Answers.messages (hmemory.symm.trans hsqlite)
    dsimp only [Trio.apply] at hmsgs
    rw [hadded, hsame, h.sqlite.answers _ rfl] at hmsgs
    have hlen := congrArg List.length (Except.ok.inj hmsgs)
    rw [length_sortByKey] at hlen
    simp at hlen
  | true =>
    have htime : record.updatedAtMs = msg.timestampMs := by
      have hmeta := congrArg Answers.sessionMeta (hmemory.symm.trans hjsonl)
      dsimp only [Trio.apply] at hmeta
      rw [(h.jsonl.appendMessage hname hrecord).answers hname] at hmeta
      have htouched : some record = some { record with updatedAtMs := msg.timestampMs } := by
        simpa [Contents.answers, Contents.addMessage, Contents.touch, hrecord] using hmeta
      exact congrArg SessionRecord.updatedAtMs (Option.some.inj htouched)
    have htouch : (t.log.addMessage msg).touch msg.sessionId msg.timestampMs =
        t.log.addMessage msg := by
      refine Contents.touch_of_same fun r hr => ?_
      have hsame : record = r := Option.some.inj (hrecord.symm.trans hr)
      rw [← hsame, htime]
    have hmsgs := congrArg Answers.messages (hmemory.symm.trans hsqlite)
    dsimp only [Trio.apply] at hmsgs
    rw [hadded, (h.sqlite.appendMessage (by simp [hrecord]) hfits).answers _ rfl, htouch]
      at hmsgs
    have hsorted : sortByKey MessageRecord.stepIndex (t.log.messages msg.sessionId ++ [msg]) =
        t.log.messages msg.sessionId ++ [msg] := by
      simpa [Contents.sortedAnswers, Contents.addMessage] using (Except.ok.inj hmsgs).symm
    refine hbad ⟨hfits, le_of_sortByKey_concat hsorted, fun r hr => ?_⟩
    have hsame : record = r := Option.some.inj (hrecord.symm.trans hr)
    rw [← hsame, htime]

theorem bad_checkpoint (h : TrioInv t) (hcovers : t.covers (.saveCheckpoint checkpoint) = true)
    (hbad : ¬ InOrder t (.saveCheckpoint checkpoint)) :
    ¬ Interchangeable (t.apply (.saveCheckpoint checkpoint)) := by
  intro hagree
  have hname := h.names checkpoint.sessionId hcovers
  obtain ⟨record, hrecord⟩ := Option.isSome_iff_exists.mp hcovers
  obtain ⟨-, hsqlite⟩ := hagree checkpoint.sessionId 0 (.inr hname) rfl
  have hmemory := (h.memory.saveCheckpoint checkpoint).answers checkpoint.sessionId 0
  have hlist := congrArg Answers.checkpoints (hmemory.symm.trans hsqlite)
  have hadded : ((t.log.addCheckpoint checkpoint).answers checkpoint.sessionId 0).checkpoints =
      .ok (t.log.checkpoints checkpoint.sessionId ++ [checkpoint]) := by
    simp [Contents.answers, Contents.addCheckpoint]
  dsimp only [Trio.apply] at hlist
  rw [hadded] at hlist
  cases hfits : [checkpoint.stepIndex, checkpoint.timestampMs, checkpoint.messageCount].all
      fitsColumn with
  | false =>
    have hsame : (t.sqlite.saveCheckpoint checkpoint).1 = t.sqlite :=
      insertChild_of_unfit _ _ _ hfits
    rw [hsame, h.sqlite.answers _ rfl] at hlist
    have hlen := congrArg List.length (Except.ok.inj hlist)
    rw [length_sortByKey] at hlen
    simp at hlen
  | true =>
    rw [(h.sqlite.saveCheckpoint (by simp [hrecord]) hfits).answers _ rfl] at hlist
    let old := t.log.checkpoints checkpoint.sessionId
    have hsorted : sortByKey Checkpoint.stepIndex
        (old.filter (fun cp => cp.stepIndex ≠ checkpoint.stepIndex) ++ [checkpoint]) =
        old ++ [checkpoint] := by
      simpa [Contents.sortedAnswers, Contents.replaceCheckpoint] using (Except.ok.inj hlist).symm
    -- no checkpoint was replaced, so none has the new one's step
    have hkept : old.filter (fun cp => cp.stepIndex ≠ checkpoint.stepIndex) = old := by
      have hlen := congrArg List.length hsorted
      rw [length_sortByKey, length_append, length_append] at hlen
      exact filter_sublist.eq_of_length (Nat.add_right_cancel hlen)
    have hne := filter_eq_self.mp hkept
    rw [hkept] at hsorted
    refine hbad ⟨hfits, fun cp hcp => ?_⟩
    exact Nat.lt_of_le_of_ne (le_of_sortByKey_concat hsorted cp hcp)
      (of_decide_eq_true (hne cp hcp))

theorem bad_prompt (h : TrioInv t) {record : PromptHistoryRecord}
    (hcovers : t.covers (.savePromptHistory record) = true)
    (hbad : ¬ InOrder t (.savePromptHistory record)) :
    ¬ Interchangeable (t.apply (.savePromptHistory record)) := by
  intro hagree
  have hname := h.names record.sessionId hcovers
  obtain ⟨old, hold⟩ := Option.isSome_iff_exists.mp hcovers
  obtain ⟨-, hsqlite⟩ := hagree record.sessionId 0 (.inr hname) rfl
  have hmemory := (h.memory.savePromptHistory record).answers record.sessionId 0
  have hlist := congrArg Answers.promptHistory (hmemory.symm.trans hsqlite)
  have hadded : ((t.log.addPrompt record).answers record.sessionId 0).promptHistory =
      .ok (t.log.prompts record.sessionId ++ [record]) := by
    simp [Contents.answers, Contents.addPrompt]
  dsimp only [Trio.apply] at hlist
  rw [hadded] at hlist
  cases hfits : [record.timestampMs].all fitsColumn with
  | false =>
    have hsame : (t.sqlite.savePromptHistory record).1 = t.sqlite :=
      insertChild_of_unfit _ _ _ hfits
    rw [hsame, h.sqlite.answers _ rfl] at hlist
    have hlen := congrArg List.length (Except.ok.inj hlist)
    rw [length_sortByKey] at hlen
    simp at hlen
  | true =>
    rw [(h.sqlite.savePromptHistory (by simp [hold]) hfits).answers _ rfl] at hlist
    have hsorted : sortByKey PromptHistoryRecord.timestampMs
        (t.log.prompts record.sessionId ++ [record]) =
        t.log.prompts record.sessionId ++ [record] := by
      simpa [Contents.sortedAnswers, Contents.addPrompt] using (Except.ok.inj hlist).symm
    exact hbad ⟨hfits, le_of_sortByKey_concat hsorted⟩

theorem TrioInv.bad_step (h : TrioInv t) (hstep : t.step call = some t') (hnamed : Named call)
    (hbad : ¬ InOrder t call) :
    ¬ Interchangeable t' := by
  unfold Trio.step at hstep
  split at hstep
  · rename_i hcovers
    cases hstep
    cases call with
    | saveSessionMeta record =>
      intro hagree
      obtain ⟨-, hnew⟩ := of_decide_eq_true hcovers
      obtain ⟨-, hsqlite⟩ := hagree record.sessionId 0 (.inr hnamed) rfl
      have hunfit : ¬ [record.createdAtMs, record.updatedAtMs].all fitsColumn = true :=
        fun hfits => hbad ⟨hnamed, hfits⟩
      have hmemory := (h.memory.saveSessionMeta record).answers record.sessionId 0
      have hmeta := congrArg Answers.sessionMeta (hmemory.symm.trans hsqlite)
      have hsame : (t.sqlite.saveSessionMeta record).1 = t.sqlite :=
        saveSessionMeta_of_unfit _ (Bool.eq_false_iff.mpr hunfit)
      dsimp only [Trio.apply] at hmeta
      rw [hsame, h.sqlite.answers _ rfl] at hmeta
      simp [Contents.answers, Contents.sortedAnswers, Contents.register, hnew] at hmeta
    | appendMessage msg => exact append_bad h hcovers hbad
    | saveCheckpoint checkpoint => exact bad_checkpoint h hcovers hbad
    | savePromptHistory record => exact bad_prompt h hcovers hbad
    | deleteCheckpoints sid => exact absurd trivial hbad
    | saveCompaction _ => cases hcovers
    | deleteSession _ => cases hcovers
  · cases hstep

/-- Three empty stores: the JSONL backend is opened on a tree with nothing below
its sessions directory. -/
def Trio.fresh (j : JsonlBackend) : Trio := ⟨.new, j, .new, .empty⟩

theorem trioInv_fresh {tree : LineTree} {root : Path}
    (hopen : JsonlBackend.openAt tree root = .ok j)
    (hempty : ∀ x, tree.get (sessionsDir root ++ [x]) = none) : TrioInv (.fresh j) := by
  unfold JsonlBackend.openAt at hopen
  split at hopen
  · cases hopen
  rename_i made hmade
  cases hopen
  have hget := FileTree.get_of_createDirAll hmade
  have hnone : ∀ x, made.get (sessionsDir root ++ [x]) = none := by
    intro x
    rw [hget, if_neg, hempty]
    intro hpre
    have hlen := hpre.length_le
    simp at hlen
  have hnone' : ∀ x y, made.get (sessionsDir root ++ [x, y]) = none := by
    intro x y
    by_contra hsome
    obtain ⟨v, hv⟩ := Option.ne_none_iff_exists'.mp hsome
    have hparent : made.get (sessionsDir root ++ [x]) = some .dir :=
      FileTree.get_parent (n := y) (v := v) (by simpa using hv)
    rw [hnone] at hparent
    cases hparent
  have hlines : ∀ sid name, linesOf ⟨root, made⟩ sid name = [] := by
    intro sid name
    simp [linesOf, FileTree.fileAt, hnone']
  refine ⟨memoryHolds_new, ⟨⟨?_, fun x v hv => ?_, fun x y hxy => ?_⟩, fun sid => hnone' sid _,
    fun sid => hlines sid _, fun sid => hlines sid _, fun sid => hlines sid _⟩, sqliteHolds_new,
    ⟨fun _ => .nil, fun _ => .nil, fun _ => .nil⟩, fun sid hsid => by cases hsid⟩
  · change made.get (sessionsDir root) = some .dir
    simp [hget]
  · change made.get (sessionsDir root ++ [x]) = some v at hv
    rw [hnone] at hv
    cases hv
  · change made.get (sessionsDir root ++ [x, y]) = some .dir at hxy
    rw [hnone'] at hxy
    cases hxy

theorem InOrder.named (h : InOrder t call) : Named call := by
  cases call with
  | saveSessionMeta record => exact h.1
  | _ => trivial

end DbClinic.Persistence
