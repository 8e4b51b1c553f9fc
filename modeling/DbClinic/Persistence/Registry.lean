import DbClinic.Lib.Transition
import DbClinic.Persistence.FlatTree
import DbClinic.Persistence.SessionBackend

/-!
A backend as a registry of sessions: what was saved last under an id, and not
deleted since, is what loading the id returns, is listed once, and is what a
delete removes. A history pairs a backend with the record saved last under
each id. The memory and SQLite backends keep the registry through every
history; the JSONL backend does as long as no record names a user, because it
writes such a record below a directory of that user and never looks there.
-/

namespace DbClinic.Persistence

open JsonlBackend Transition List

/-- A backend together with the record saved last under each id and not
deleted since. The second field is history, not state of the program. -/
structure History where
  backend : SessionBackend
  saved : String → Option SessionRecord

def savedAfter (saved : String → Option SessionRecord) :
    SessionBackend.Call → String → Option SessionRecord
  | .saveSessionMeta record => Function.update saved record.sessionId (some record)
  | .deleteSession sessionId => Function.update saved sessionId none
  | _ => saved

/-- The names the JSONL backend makes paths of are single path components. -/
def PathSafe : SessionBackend.Call → Prop
  | .saveSessionMeta record =>
    Path.IsName record.sessionId ∧ ∀ user ∈ record.username, Path.IsName user
  | .appendMessage msg => Path.IsName msg.sessionId
  | .saveCheckpoint checkpoint => Path.IsName checkpoint.sessionId
  | .savePromptHistory record => Path.IsName record.sessionId
  | .saveCompaction record => Path.IsName record.sessionId
  | .deleteSession sessionId => Path.IsName sessionId
  | .deleteCheckpoints sessionId => Path.IsName sessionId

instance : DecidablePred PathSafe := fun c => by
  cases c <;> unfold PathSafe <;> infer_instance

/-- The calls a history consists of: all of them, except that the JSONL backend
is given path-safe names only. -/
def Admits : SessionBackend → SessionBackend.Call → Prop
  | .jsonl _, c => PathSafe c
  | _, _ => True

instance (b : SessionBackend) : DecidablePred (Admits b) := fun c => by
  cases b <;> unfold Admits <;> infer_instance

def History.step (h : History) (c : SessionBackend.Call) : Option History :=
  if Admits h.backend c then some ⟨h.backend.call c, savedAfter h.saved c⟩ else none

/-- What a client may expect of an id under which `record` was saved. -/
def Found (b : SessionBackend) (sessionId : String) (record : SessionRecord) : Prop :=
  ∃ stored, SavedAs record stored ∧
    b.loadSessionMeta sessionId = .ok (some stored) ∧
    (∃ listed, b.listSessions = .ok listed ∧
      listed.filter (fun r => r.sessionId = sessionId) = [stored]) ∧
    (b.deleteSession sessionId).2 = .ok true ∧
    (b.deleteSession sessionId).1.loadSessionMeta sessionId = .ok none

def Registered (h : History) : Prop :=
  ∀ sid record, h.saved sid = some record → Found h.backend sid record

def Holds : SessionBackend → SessionRecord → Prop
  | .memory _, _ => True
  | .jsonl _, record => record.username = none
  | .sqlite _, record => [record.createdAtMs, record.updatedAtMs].all fitsColumn = true

/-- Appending the message sets the update time of its session. -/
def Touches : SessionBackend → MessageRecord → Prop
  | .memory _, _ => False
  | .jsonl _, _ => True
  | .sqlite _, msg => [msg.timestampMs, msg.stepIndex].all fitsColumn = true

/-- What a call must meet for the registry to survive it. -/
def CallOk (h : History) : SessionBackend.Call → Prop
  | .saveSessionMeta record => Holds h.backend record
  | .appendMessage msg => Touches h.backend msg →
      ∀ record, h.saved msg.sessionId = some record → record.updatedAtMs ≤ msg.timestampMs
  | _ => True

/-- The invariant of the SQLite backend: its integers also fit their columns. -/
structure SqliteInv (s : SqliteBackend) (saved : String → Option SessionRecord) : Prop where
  metas : MetaInv s.sessionMeta saved
  fits : ∀ sid stored, s.sessionMeta.get sid = some stored →
    [stored.createdAtMs, stored.updatedAtMs].all fitsColumn = true

/-- The invariant of each backend along a history whose calls are `CallOk`. -/
def Keeps (b : SessionBackend) (saved : String → Option SessionRecord) : Prop :=
  match b with
  | .memory m => MetaInv m.sessions saved
  | .jsonl j => JsonlInv j saved
  | .sqlite s => SqliteInv s saved

variable {saved : String → Option SessionRecord} {record stored : SessionRecord}
variable {s : SqliteBackend} {h : History} {sid : String} {c : SessionBackend.Call}
variable {j : JsonlBackend} {msg : MessageRecord}

theorem memory_found {m : MemoryBackend} (h : MetaInv m.sessions saved)
    (hsaved : saved sid = some record) : Found (.memory m) sid record := by
  obtain ⟨stored, hget, has⟩ := h.found sid record hsaved
  refine ⟨stored, has, ?_, ⟨_, rfl, h.listed hget⟩, ?_, ?_⟩
  · simp [SessionBackend.loadSessionMeta, MemoryBackend.loadSessionMeta, hget]
  · simp [SessionBackend.deleteSession, SessionBackend.onStore, MemoryBackend.deleteSession, hget]
  · simp [SessionBackend.deleteSession, SessionBackend.onStore, MemoryBackend.deleteSession,
      SessionBackend.loadSessionMeta, MemoryBackend.loadSessionMeta]

theorem sqlite_found (h : MetaInv s.sessionMeta saved) (hsaved : saved sid = some record) :
    Found (.sqlite s) sid record := by
  obtain ⟨stored, hget, has⟩ := h.found sid record hsaved
  refine ⟨stored, has, ?_, ⟨_, rfl, h.listed hget⟩, ?_, ?_⟩
  · simp [SessionBackend.loadSessionMeta, SqliteBackend.loadSessionMeta, hget]
  · simp [SessionBackend.deleteSession, SessionBackend.onStore, SqliteBackend.deleteSession, hget]
  · simp [SessionBackend.deleteSession, SessionBackend.onStore, SqliteBackend.deleteSession,
      SqliteBackend.deleteMetaRow, SessionBackend.loadSessionMeta,
      SqliteBackend.loadSessionMeta, hget]

theorem jsonl_found {b : JsonlBackend} (h : JsonlInv b saved) (hsaved : saved sid = some record) :
    Found (.jsonl b) sid record := by
  obtain ⟨stored, hget, has⟩ := h.found sid record hsaved
  have hdir : b.tree.get (sessionsDir b.root ++ [sid]) = some .dir :=
    FileTree.get_parent (n := "meta.json") (v := .file [.session stored]) (by simpa using hget)
  have hsid : Path.IsName sid := (h.flat.dirs sid _ hdir).2
  obtain ⟨hinv, hroot, hgone, hres⟩ := h.deleteSession hsid
  refine ⟨stored, has, ?_, h.listed hget, ?_, ?_⟩
  · change b.loadSessionMeta sid = _
    rw [h.loadSessionMeta hsid]
    simp [storedMeta, hget]
  · change (b.deleteSession sid).2 = _
    rw [hres, FileTree.pathExists, hdir]
    rfl
  · change (b.deleteSession sid).1.loadSessionMeta sid = _
    rw [hinv.loadSessionMeta hsid, storedMeta, hroot, hgone]

theorem Keeps.registered (hkeeps : Keeps h.backend h.saved) : Registered h := by
  obtain ⟨b, saved⟩ := h
  intro sid record hsaved
  cases b with
  | memory m => exact memory_found hkeeps hsaved
  | jsonl j => exact jsonl_found hkeeps hsaved
  | sqlite s => exact sqlite_found (SqliteInv.metas hkeeps) hsaved

theorem memory_call {m : MemoryBackend} (h : MetaInv m.sessions saved) (c : SessionBackend.Call) :
    Keeps ((SessionBackend.memory m).call c) (savedAfter saved c) := by
  cases c with
  | saveSessionMeta record => exact h.insert record
  | deleteSession sid => exact h.erase sid
  | appendMessage _ => exact h
  | saveCheckpoint _ => exact h
  | savePromptHistory _ => exact h
  | saveCompaction _ => exact h
  | deleteCheckpoints _ => exact h

theorem jsonl_call (h : JsonlInv j saved) (hsafe : PathSafe c) (hok : CallOk ⟨.jsonl j, saved⟩ c) :
    Keeps ((SessionBackend.jsonl j).call c) (savedAfter saved c) := by
  cases c with
  | saveSessionMeta record => exact h.saveSessionMeta hsafe.1 hok
  | deleteSession sid => exact (h.deleteSession hsafe).1
  | appendMessage msg => exact h.appendMessage hsafe (fun _ _ hr => hr) (hok trivial)
  | saveCheckpoint checkpoint => exact h.saveCheckpoint hsafe
  | savePromptHistory record => exact h.savePromptHistory hsafe
  | saveCompaction record => exact h.saveCompaction hsafe
  | deleteCheckpoints sid => exact h.deleteCheckpoints hsafe

/-- A row deleted from `session_meta` is forgotten; no other row changes. -/
theorem SqliteInv.deleteMetaRow (h : SqliteInv s saved) (gone : String) :
    SqliteInv (s.deleteMetaRow gone) (Function.update saved gone none) := by
  unfold SqliteBackend.deleteMetaRow
  split
  · refine ⟨h.metas.erase gone, fun sid stored hget => ?_⟩
    simp only [KeyMap.get_erase] at hget
    split at hget
    · cases hget
    · exact h.fits sid stored hget
  · exact ⟨h.metas.forget gone, h.fits⟩

theorem SqliteInv.insertChild (h : SqliteInv s saved) (numbers : List Nat) (sid : String)
    {run : SqliteBackend → SqliteBackend}
    (hrun : numbers.all fitsColumn = true → SqliteInv (run s) saved) :
    SqliteInv (s.insertChild numbers sid run).1 saved := by
  unfold SqliteBackend.insertChild
  split
  · exact h
  · rename_i hfits
    split
    · exact h
    · exact hrun (by simpa using hfits)

theorem SqliteInv.saveSessionMeta (h : SqliteInv s saved)
    (hfits : [record.createdAtMs, record.updatedAtMs].all fitsColumn = true) :
    SqliteInv (s.saveSessionMeta record).1
      (Function.update saved record.sessionId (some record)) := by
  have hrow := h.deleteMetaRow record.sessionId
  have hmetas := hrow.metas.insert record
  rw [Function.update_idem] at hmetas
  unfold SqliteBackend.saveSessionMeta
  rw [if_neg (by simp [hfits])]
  refine ⟨hmetas, fun sid stored hget => ?_⟩
  rw [KeyMap.get_insert] at hget
  split at hget
  · cases hget
    exact hfits
  · exact hrow.fits sid stored hget

theorem SqliteInv.touchMeta (h : SqliteInv s saved) {time : Nat} (hfits : fitsColumn time = true)
    (htime : ∀ record, saved sid = some record → record.updatedAtMs ≤ time) :
    SqliteInv (s.touchMeta sid time) saved := by
  unfold SqliteBackend.touchMeta
  split
  · rename_i stored hget
    refine ⟨h.metas.touch hget htime, fun other s' hs' => ?_⟩
    rw [KeyMap.get_insert] at hs'
    split at hs'
    · cases hs'
      have hold := h.fits sid stored hget
      simp only [all_cons, all_nil, Bool.and_true, Bool.and_eq_true] at hold ⊢
      exact ⟨hold.1, hfits⟩
    · exact h.fits other s' hs'
  · exact h

theorem sqlite_call (h : SqliteInv s saved) (hok : CallOk ⟨.sqlite s, saved⟩ c) :
    Keeps ((SessionBackend.sqlite s).call c) (savedAfter saved c) := by
  cases c with
  | saveSessionMeta record => exact h.saveSessionMeta hok
  | deleteSession sid => exact h.deleteMetaRow sid
  | appendMessage msg =>
    apply h.insertChild
    intro hfits
    have hinserted : SqliteInv { s with messages := s.messages.insert msg } saved :=
      ⟨h.metas, h.fits⟩
    refine hinserted.touchMeta ?_ (hok hfits)
    simp only [all_cons, Bool.and_eq_true] at hfits
    exact hfits.1
  | saveCheckpoint checkpoint => exact h.insertChild _ _ fun _ => ⟨h.metas, h.fits⟩
  | savePromptHistory record => exact h.insertChild _ _ fun _ => ⟨h.metas, h.fits⟩
  | saveCompaction record => exact h.insertChild _ _ fun _ => ⟨h.metas, h.fits⟩
  | deleteCheckpoints sid => exact ⟨h.metas, h.fits⟩

/-! A call that does not meet the condition breaks the registry at once: it
leaves the session without the record that was saved, or with an older time. -/

theorem not_registered (hsaved : h.saved sid = some record)
    (hload : ∀ stored, h.backend.loadSessionMeta sid = .ok (some stored) →
      ¬ SavedAs record stored) : ¬ Registered h := by
  intro hreg
  obtain ⟨stored, has, hstored, -⟩ := hreg sid record hsaved
  exact hload stored hstored has

theorem jsonl_user_not_loaded (h : JsonlInv j saved) {user : String}
    (huser : record.username = some user) (hname : Path.IsName user)
    (hsid : Path.IsName record.sessionId)
    (hload : (j.saveSessionMeta record).1.loadSessionMeta record.sessionId =
      .ok (some stored)) : stored.username = none := by
  have hdir : recordDir j.root record = sessionsDir j.root ++ [user, record.sessionId] := by
    simp [recordDir, huser, userSessionDir, Path.join_of_isName _ hname,
      Path.join_of_isName _ hsid]
  have hbefore : ∀ s, j.loadSessionMeta record.sessionId = .ok (some s) → s.username = none := by
    intro s hs
    rw [h.loadSessionMeta hsid] at hs
    have hstored := Except.ok.inj hs
    exact h.storedMeta_username hstored
  cases hmake : j.tree.createDirAll (recordDir j.root record) with
  | error e =>
    rw [saveSessionMeta_of_blocked j record hmake] at hload
    exact hbefore stored hload
  | ok t =>
    have hget := get_saveSessionMeta j record hmake
      (q := metaPath (sessionDir j.root record.sessionId))
      (by
        intro heq
        have hlen := congrArg List.length heq
        simp [hdir, metaPath, sessionDir_of_isName _ hsid] at hlen)
      (by
        intro heq
        have hlen := congrArg List.length heq
        simp [hdir, metaPath, sessionDir_of_isName _ hsid] at hlen)
    unfold JsonlBackend.loadSessionMeta FileTree.pathExists FileTree.readFile at hload hbefore
    simp only [saveSessionMeta_root, hget] at hload
    split at hload
    · cases hload
    · exact hbefore stored hload

theorem jsonl_append_time (h : JsonlInv j saved) (hsid : Path.IsName msg.sessionId)
    (hsaved : saved msg.sessionId = some record)
    (hload : (j.appendMessage msg).1.loadSessionMeta msg.sessionId = .ok (some stored)) :
    stored.updatedAtMs = msg.timestampMs := by
  have hinv : JsonlInv (j.appendMessage msg).1 fun _ => none :=
    h.appendMessage hsid (by simp) (by simp)
  rw [hinv.loadSessionMeta hsid] at hload
  have hstored := Except.ok.inj hload
  obtain ⟨b₁, hinv₁, ⟨hnone, -⟩ | ⟨old, -, hwrote⟩⟩ := h.appendMessage_cases hsid
  · obtain ⟨s, hget, -⟩ := hinv₁.found _ _ hsaved
    simp [storedMeta, hget] at hnone
  · have hget := hwrote.items msg.sessionId "meta.json"
    simp only [and_self, if_true] at hget
    simp only [storedMeta, hwrote.root, hget, Option.some.injEq] at hstored
    rw [← hstored]

theorem sqlite_append_time (h : SqliteInv s saved)
    (hfits : [msg.timestampMs, msg.stepIndex].all fitsColumn = true)
    (hsaved : saved msg.sessionId = some record)
    (hload : (s.appendMessage msg).1.loadSessionMeta msg.sessionId = .ok (some stored)) :
    stored.updatedAtMs = msg.timestampMs := by
  obtain ⟨old, hget, -⟩ := h.metas.found _ _ hsaved
  have hget' := Except.ok.inj hload
  simp only [SqliteBackend.appendMessage, SqliteBackend.insertChild, hfits, hget,
    Bool.true_eq_false, if_false, Option.isNone_some, Bool.false_eq_true,
    SqliteBackend.touchMeta, KeyMap.get_insert_self, Option.some.injEq] at hget'
  rw [← hget']

theorem bad_save (hkeeps : Keeps h.backend h.saved)
    (hadmits : Admits h.backend (.saveSessionMeta record)) (hbad : ¬ Holds h.backend record)
    (hload : (h.backend.call (.saveSessionMeta record)).loadSessionMeta record.sessionId =
      .ok (some stored)) : ¬ SavedAs record stored := by
  obtain ⟨b, saved⟩ := h
  intro has
  cases b with
  | memory m => exact hbad trivial
  | jsonl j =>
    obtain ⟨user, huser⟩ := Option.ne_none_iff_exists'.mp hbad
    have hnone := jsonl_user_not_loaded hkeeps huser (hadmits.2 user huser) hadmits.1 hload
    rw [has.1, huser] at hnone
    cases hnone
  | sqlite s =>
    have hsame : (s.saveSessionMeta record).1 = s := by
      unfold SqliteBackend.saveSessionMeta
      rw [if_pos (by simpa only [Holds, Bool.not_eq_true] using hbad)]
    have hget : s.sessionMeta.get record.sessionId = some stored := by
      have hget' := Except.ok.inj hload
      rwa [hsame] at hget'
    have hfits := SqliteInv.fits hkeeps _ stored hget
    have hcreated : stored.createdAtMs = record.createdAtMs := by rw [has.1]
    have hupdated := has.2
    simp only [all_cons, all_nil, Bool.and_true, Bool.and_eq_true, fitsColumn,
      decide_eq_true_eq] at hfits
    apply hbad
    simp only [Holds, all_cons, all_nil, Bool.and_true, Bool.and_eq_true, fitsColumn,
      decide_eq_true_eq]
    omega

theorem bad_append (hkeeps : Keeps h.backend h.saved)
    (hadmits : Admits h.backend (.appendMessage msg)) (htouches : Touches h.backend msg)
    (hsaved : h.saved msg.sessionId = some record)
    (hload : (h.backend.call (.appendMessage msg)).loadSessionMeta msg.sessionId =
      .ok (some stored)) : stored.updatedAtMs = msg.timestampMs := by
  obtain ⟨b, saved⟩ := h
  cases b with
  | memory m => exact htouches.elim
  | jsonl j => exact jsonl_append_time hkeeps hadmits hsaved hload
  | sqlite s => exact sqlite_append_time hkeeps htouches hsaved hload

theorem bad_call (hkeeps : Keeps h.backend h.saved) (hadmits : Admits h.backend c)
    (hbad : ¬ CallOk h c) :
    ¬ Registered ⟨h.backend.call c, savedAfter h.saved c⟩ := by
  cases c with
  | saveSessionMeta record =>
    have hsaved : savedAfter h.saved (.saveSessionMeta record) record.sessionId =
        some record := Function.update_self ..
    apply not_registered hsaved
    exact fun stored hload => bad_save hkeeps hadmits hbad hload
  | appendMessage msg =>
    unfold CallOk at hbad
    push Not at hbad
    obtain ⟨htouches, record, hsaved, htime⟩ := hbad
    have hafter : savedAfter h.saved (.appendMessage msg) msg.sessionId = some record := hsaved
    apply not_registered (h := ⟨h.backend.call (.appendMessage msg), _⟩) hafter
    intro stored hload has
    have hupdated := bad_append hkeeps hadmits htouches hsaved hload
    have hraised := has.2
    omega
  | saveCheckpoint _ => exact absurd trivial hbad
  | savePromptHistory _ => exact absurd trivial hbad
  | saveCompaction _ => exact absurd trivial hbad
  | deleteSession _ => exact absurd trivial hbad
  | deleteCheckpoints _ => exact absurd trivial hbad

theorem good_call (hkeeps : Keeps h.backend h.saved) (hadmits : Admits h.backend c)
    (hok : CallOk h c) :
    Keeps (h.backend.call c) (savedAfter h.saved c) := by
  obtain ⟨b, saved⟩ := h
  cases b with
  | memory m => exact memory_call hkeeps c
  | jsonl j => exact jsonl_call hkeeps hadmits hok
  | sqlite s => exact sqlite_call hkeeps hok

/-- An empty backend: a new map, a new database, or the JSONL backend opened on
a tree with nothing below its sessions directory. -/
inductive Fresh : SessionBackend → Prop where
  | memory : Fresh (.memory .new)
  | jsonl {tree : LineTree} {root : Path} {j : JsonlBackend} :
      JsonlBackend.openAt tree root = .ok j →
      (∀ x, tree.get (sessionsDir root ++ [x]) = none) → Fresh (.jsonl j)
  | sqlite : Fresh (.sqlite .new)

theorem Fresh.keeps {b : SessionBackend} (h : Fresh b) : Keeps b fun _ => none := by
  cases h with
  | memory => exact metaInv_empty
  | sqlite =>
    refine ⟨metaInv_empty, fun sid stored hget => ?_⟩
    cases hget
  | @jsonl tree root j hopen hempty =>
    unfold JsonlBackend.openAt at hopen
    split at hopen
    · cases hopen
    rename_i t ht
    cases hopen
    have hget := FileTree.get_of_createDirAll ht
    have hnone : ∀ x, t.get (sessionsDir root ++ [x]) = none := by
      intro x
      rw [hget, if_neg, hempty]
      intro hpre
      have hlen := hpre.length_le
      simp at hlen
    have hnone' : ∀ x y, t.get (sessionsDir root ++ [x, y]) = none := by
      intro x y
      by_contra hsome
      obtain ⟨v, hv⟩ := Option.ne_none_iff_exists'.mp hsome
      have hparent : t.get (sessionsDir root ++ [x]) = some .dir :=
        FileTree.get_parent (n := y) (v := v) (by simpa using hv)
      rw [hnone] at hparent
      cases hparent
    refine ⟨⟨?_, ?_, ?_⟩, ?_, ?_⟩
    · simp [hget]
    · intro x v hv
      rw [hnone] at hv
      cases hv
    · intro x y hxy
      rw [hnone'] at hxy
      cases hxy
    · intro x lines hlines
      rw [hnone'] at hlines
      cases hlines
    · intro sid record hsaved
      cases hsaved

/-- Along a history that starts empty, every saved record is found exactly as
long as each record is kept where the backend looks for it and no appended
message is older than the record of its session. -/
theorem registered_along_iff {b : SessionBackend} (hfresh : Fresh b)
    (calls : List SessionBackend.Call) :
    Along History.step Registered ⟨b, fun _ => none⟩ calls ↔
      Meets History.step CallOk ⟨b, fun _ => none⟩ calls := by
  have hstep : ∀ h c h', History.step h c = some h' →
      Admits h.backend c ∧ h' = ⟨h.backend.call c, savedAfter h.saved c⟩ := by
    intro h c h' heq
    unfold History.step at heq
    split at heq
    · rename_i hadmits
      exact ⟨hadmits, (Option.some.inj heq).symm⟩
    · cases heq
  apply along_iff_meets (I := fun h => Keeps h.backend h.saved)
  · exact fun h hkeeps => Keeps.registered hkeeps
  · intro h c h' hkeeps heq hok
    obtain ⟨hadmits, rfl⟩ := hstep h c h' heq
    exact good_call hkeeps hadmits hok
  · intro h c h' hkeeps heq hbad
    obtain ⟨hadmits, rfl⟩ := hstep h c h' heq
    exact bad_call hkeeps hadmits hbad
  · exact hfresh.keeps

/-- The law at a database that saves a session and appends a message to it. -/
theorem registered_along_iff_sqlite :
    Fresh (.sqlite .new) ∧
      (Along History.step Registered ⟨.sqlite .new, fun _ => none⟩
          [.saveSessionMeta ⟨"s", 1, 1, none, none, none, none, none⟩,
            .appendMessage ⟨"s", "user", "..", 2, 0, none⟩] ↔
        Meets History.step CallOk ⟨.sqlite .new, fun _ => none⟩
          [.saveSessionMeta ⟨"s", 1, 1, none, none, none, none, none⟩,
            .appendMessage ⟨"s", "user", "..", 2, 0, none⟩]) :=
  ⟨.sqlite, registered_along_iff .sqlite _⟩

/-- A record that names a user, saved to the JSONL backend, is not loaded. -/
theorem user_session_not_found :
    ¬ ∀ b, Fresh b → ∀ calls, Along History.step Registered ⟨b, fun _ => none⟩ calls := by
  intro hlaw
  let record : SessionRecord := ⟨"s", 1, 1, none, none, none, none, some "alice"⟩
  obtain ⟨j, hopen, hload⟩ : ∃ j, JsonlBackend.openAt FileTree.empty ["data"] = .ok j ∧
      (j.saveSessionMeta record).1.loadSessionMeta "s" = .ok none :=
    ⟨_, rfl, by decide⟩
  have hfresh : Fresh (.jsonl j) := by
    apply Fresh.jsonl hopen
    intro x
    rfl
  have hsafe : PathSafe (.saveSessionMeta record) := by decide
  have halong := hlaw _ hfresh [.saveSessionMeta record]
  have hafter := (halong.2 _ (if_pos hsafe)).head
  obtain ⟨stored, -, hstored, -⟩ := hafter "s" record rfl
  change (j.saveSessionMeta record).1.loadSessionMeta "s" = _ at hstored
  rw [hload] at hstored
  cases hstored

end DbClinic.Persistence
