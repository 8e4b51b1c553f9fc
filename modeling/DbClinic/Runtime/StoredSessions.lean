import DbClinic.Lib.Outcomes
import DbClinic.Runtime.SessionSave
import DbClinic.Runtime.SessionStore
import DbClinic.Runtime.Snapshot

/-!
What the saves of a store leave in its directory. A saved file loads as the session it was
saved from, wherever it lies. Every file in the directory is such a file under the id of its
session or under the name of a rotated copy, and the sessions whose id is no name of a
rotated copy keep the file of that id.
-/

namespace DbClinic.Runtime

open List

namespace Session

/-- The numbers of 32 bits. Those of 64 bits are refused or clamped when they do not fit. -/
structure Typed (session : Session) : Prop where
  version : session.version < 2 ^ 32
  messages : ∀ message ∈ session.messages, message.Fits
  compaction : ∀ compaction ∈ session.compaction, compaction.count < 2 ^ 32

def clamped (session : Session) : Session :=
  { session with
    promptHistory := session.promptHistory.map fun entry =>
      { entry with timestampMs := min entry.timestampMs (2 ^ 63 - 1) } }

theorem records_clamped (session : Session) : session.clamped.records = session.records := by
  have hentry (entry : SessionPromptEntry) :
      SessionPromptEntry.toJsonlRecord
        { entry with timestampMs := min entry.timestampMs (2 ^ 63 - 1) } =
      entry.toJsonlRecord := by
    have hmin : min ((min entry.timestampMs (2 ^ 63 - 1) : Nat) : Int) (2 ^ 63 - 1) =
        min (entry.timestampMs : Int) (2 ^ 63 - 1) := by omega
    unfold SessionPromptEntry.toJsonlRecord
    dsimp only
    rw [hmin]
  unfold records
  have hprompts : session.clamped.promptHistory.map SessionPromptEntry.toJsonlRecord =
      session.promptHistory.map SessionPromptEntry.toJsonlRecord := by
    unfold clamped
    rw [map_map]
    exact map_congr_left fun entry _ => hentry entry
  rw [hprompts]
  rfl

theorem lt_of_i64FromNat {value : Nat} {key : String} {rendered : JsonValue}
    (h : i64FromNat value key = .ok rendered) : value < 2 ^ 63 := by
  unfold i64FromNat at h
  split at h
  · assumption
  · cases h

variable {session : Session} {values : List JsonValue}

theorem clamped_fits (htyped : session.Typed) (h : session.records = .ok values) :
    session.clamped.Fits := by
  unfold records at h
  obtain ⟨header, hheader, h⟩ := Outcomes.bind_eq_ok h
  obtain ⟨compaction, hcompaction, -⟩ := Outcomes.bind_eq_ok h
  unfold metaRecord at hheader
  obtain ⟨created, hcreated, hheader⟩ := Outcomes.bind_eq_ok hheader
  obtain ⟨updated, hupdated, -⟩ := Outcomes.bind_eq_ok hheader
  refine ⟨htyped.version, lt_of_i64FromNat hcreated, lt_of_i64FromNat hupdated, htyped.messages,
    ?_, ?_⟩
  · intro c hc
    have hc : session.compaction = some c := hc
    rw [hc, Option.mapM_some] at hcompaction
    obtain ⟨record, hrecord, -⟩ := Outcomes.bind_eq_ok hcompaction
    unfold SessionCompaction.toJsonlRecord at hrecord
    obtain ⟨entries, hents, -⟩ := Outcomes.bind_eq_ok hrecord
    unfold SessionCompaction.entries at hents
    obtain ⟨removed, hremoved, -⟩ := Outcomes.bind_eq_ok hents
    exact ⟨htyped.compaction c hc, lt_of_i64FromNat hremoved⟩
  · intro entry hentry
    obtain ⟨original, -, rfl⟩ := mem_map.mp hentry
    unfold SessionPromptEntry.Fits
    dsimp only
    omega

theorem hasMessages_renderLines {entries : List (String × JsonValue)}
    (hstorable : StorableFields entries) (hnone : getEntry (entriesOf entries) "messages" = none)
    (rest : List JsonValue) :
    hasMessages (JsonValue.parse (renderLines (.object (entriesOf entries) :: rest))) = none := by
  generalize hheader : JsonValue.object (entriesOf entries) = header
  have htext : renderLines (header :: rest) = header.render ++ '\n' :: renderLines rest := by
    simp [renderLines]
  have hval := Parser.parseValue_render header (hheader ▸ storable_object hstorable)
    (2 * (renderLines (header :: rest)).length + 2) ('\n' :: renderLines rest)
    (by rw [htext, length_append]; omega) (Parser.endsNumber_cons (by decide) _)
  unfold JsonValue.parse
  rw [← htext] at hval
  rw [hval]
  dsimp only
  split
  · rw [← hheader]
    simp [hasMessages, hnone]
  · rfl

theorem hasMessages_snapshot (h : session.Fits) (hvals : session.records = .ok values) :
    hasMessages (JsonValue.parse (renderLines values)) = none := by
  unfold records at hvals
  rw [metaRecord_eq h.createdAtMs h.updatedAtMs, ok_bind] at hvals
  obtain ⟨compaction, -, hvals⟩ := Outcomes.bind_eq_ok hvals
  cases hvals
  refine hasMessages_renderLines (headerFields_storable h) ?_ _
  rw [getEntry_entriesOf]
  simp [headerFields]

end Session

def SessionFile.Loads (file : SessionFile) (session : Session) : Prop :=
  ∀ (t : SessionTree) (path : Path), t.get path = some (.file file) → ∀ now stamp,
    Session.loadFromPath t path now stamp = .ok (session.withPersistencePath path)

def SessionFile.Holds (file : SessionFile) (id : String) : Prop :=
  ∃ session : Session, session.sessionId = id ∧ file.Loads session

variable {id current : String} {session : Session} {snapshot : List Char}

theorem loads_snapshot (htyped : session.Typed) (h : session.renderJsonlSnapshot = .ok snapshot)
    (time : Nat) :
    SessionFile.Loads ⟨snapshot.map .char, time⟩ session.clamped.persisted := by
  unfold Session.renderJsonlSnapshot at h
  obtain ⟨values, hvals, h⟩ := Outcomes.bind_eq_ok h
  cases h
  have hfits := Session.clamped_fits htyped hvals
  have hclamped := session.records_clamped.trans hvals
  obtain ⟨snapshot, hsnap, hread⟩ := Session.fromJsonl_snapshot hfits
  unfold Session.renderJsonlSnapshot at hsnap
  rw [hclamped] at hsnap
  cases hsnap
  intro t path hfile now stamp
  unfold Session.loadFromPath readToString FileTree.readFile
  rw [hfile]
  dsimp only
  rw [mapM_asChar]
  dsimp only
  rw [Session.hasMessages_snapshot hfits hclamped]
  dsimp only
  rw [hread now stamp]
  rfl

theorem holds_snapshot (htyped : session.Typed) (h : session.renderJsonlSnapshot = .ok snapshot)
    (time : Nat) :
    SessionFile.Holds ⟨snapshot.map .char, time⟩ session.sessionId :=
  ⟨session.clamped.persisted, rfl, loads_snapshot htyped h time⟩

theorem SessionFile.Holds.unique {file : SessionFile} {other : String} {t : SessionTree}
    {path : Path} (hid : file.Holds id) (hother : file.Holds other)
    (h : t.get path = some (.file file)) : id = other := by
  obtain ⟨session, rfl, hload⟩ := hid
  obtain ⟨session', rfl, hload'⟩ := hother
  have heq := Except.ok.inj ((hload t path h 0 ⟨0, 0⟩).symm.trans (hload' t path h 0 ⟨0, 0⟩))
  have hloaded := congrArg Session.sessionId heq
  exact hloaded

/-- An id that is part of a file name. -/
structure PathSafe (id : String) : Prop where
  nonempty : id ≠ ""
  separator : '/' ∉ id.toList

def sessionFileName (id : String) : String := id ++ "." ++ PRIMARY_SESSION_EXTENSION

theorem sessionFileName_injective : Function.Injective sessionFileName := by
  intro a b h
  have hlist := congrArg String.toList h
  unfold sessionFileName at hlist
  simp only [String.toList_append, append_left_inj] at hlist
  exact String.toList_injective hlist

/-- An id that reads like the name of a rotated copy. -/
def RotatedId (id : String) : Prop := ∃ base rest, base ≠ "" ∧ id = base ++ ".rot-" ++ rest

/-- The name of the file of an id, of its rotated copies or of copies of these. -/
def NamesCopy (id name : String) : Prop :=
  ∃ suffix, name = sessionFileName (id ++ suffix) ∧ '/' ∉ suffix.toList ∧
    (suffix = "" ∨ ∃ rest, suffix = ".rot-" ++ rest)

theorem namesCopy_own (id : String) : NamesCopy id (sessionFileName id) :=
  ⟨"", by simp, by simp, .inl rfl⟩

theorem digits_of_toString {n : Nat} {c : Char} (h : c ∈ (toString n).toList) :
    c.isDigit = true := by
  rw [Nat.toString_eq_repr, Nat.toList_repr] at h
  exact Nat.isDigit_of_mem_toDigits (by decide) (by decide) h

theorem slash_not_mem_toString (n : Nat) : '/' ∉ (toString n).toList := by
  intro h
  cases digits_of_toString h

theorem pathSafe_generateSessionId (stamp : Stamp) : PathSafe (generateSessionId stamp) := by
  constructor
  · intro hempty
    have hlist := congrArg String.toList hempty
    unfold generateSessionId at hlist
    simp at hlist
  · unfold generateSessionId
    simp only [String.toList_append, mem_append, not_or]
    exact ⟨⟨⟨by decide, slash_not_mem_toString _⟩, by decide⟩, slash_not_mem_toString _⟩

theorem NamesCopy.rotated (h : NamesCopy id (sessionFileName current)) (millis : Nat) :
    NamesCopy id (current ++ ".rot-" ++ toString millis ++ ".jsonl") := by
  obtain ⟨suffix, hname, hslash, hsuf⟩ := h
  rw [sessionFileName_injective hname]
  refine ⟨suffix ++ ".rot-" ++ toString millis, ?_, ?_, .inr ?_⟩
  · apply String.toList_injective
    simp [sessionFileName, PRIMARY_SESSION_EXTENSION, String.toList_append]
  · simp only [String.toList_append, mem_append, not_or]
    exact ⟨⟨hslash, by decide⟩, slash_not_mem_toString _⟩
  · rcases hsuf with rfl | ⟨rest, rfl⟩
    · exact ⟨toString millis, by simp⟩
    · exact ⟨rest ++ ".rot-" ++ toString millis, by simp [String.append_assoc]⟩

theorem NamesCopy.eq (h : NamesCopy id (sessionFileName current)) (hid : id ≠ "")
    (hcur : ¬RotatedId current) : current = id := by
  obtain ⟨suffix, hname, -, hsuf⟩ := h
  have hname := sessionFileName_injective hname
  rcases hsuf with rfl | ⟨rest, rfl⟩
  · simpa using hname
  · exact absurd ⟨id, rest, hid, by rw [hname, String.append_assoc]⟩ hcur

theorem prefix_of_prefix_append {α : Type} {xs ys zs : List α} {a : α}
    (h : xs ++ [a] <+: ys ++ zs) (ha : a ∉ zs) : xs ++ [a] <+: ys := by
  apply prefix_of_prefix_length_le h (prefix_append ys zs)
  by_contra hlong
  push Not at hlong
  obtain ⟨rest, hrest⟩ := h
  have hlast : (ys ++ zs)[xs.length]? = some a := by
    rw [← hrest]
    simp
  rw [length_append, length_singleton] at hlong
  rw [getElem?_append_right (by omega)] at hlast
  exact ha (mem_of_getElem? hlast)

theorem isRotatedName_sessionFileName {base : String} (hbase : base ≠ "") (hid : ¬RotatedId id) :
    isRotatedName base (sessionFileName id) = false := by
  by_contra hrotated
  unfold isRotatedName at hrotated
  rw [Bool.not_eq_false, Bool.and_eq_true, isPrefixOf_iff_prefix] at hrotated
  have hprefixed := hrotated.1
  have hsplit : (base ++ ".rot-").toList = (base ++ ".rot").toList ++ ['-'] := by
    simp [String.toList_append]
  have hname : (sessionFileName id).toList = id.toList ++ ".jsonl".toList := by
    simp [sessionFileName, PRIMARY_SESSION_EXTENSION, String.toList_append]
  rw [hsplit, hname] at hprefixed
  have hwithin := prefix_of_prefix_append hprefixed (by decide)
  rw [← hsplit] at hwithin
  obtain ⟨rest, hrest⟩ := hwithin
  refine hid ⟨base, String.ofList rest, hbase, ?_⟩
  apply String.toList_injective
  rw [← hrest]
  simp [String.toList_append]

namespace SessionStore

variable {store : SessionStore} {t : SessionTree}

def ownFile (store : SessionStore) (id : String) : Path :=
  store.sessionsRoot ++ [sessionFileName id]

theorem fileName_ownFile (id : String) : fileName (store.ownFile id) = sessionFileName id := by
  simp [fileName, ownFile]

theorem stem_ownFile (hid : id ≠ "") :
    Path.stem (fileName (store.ownFile id)) = id := by
  rw [fileName_ownFile]
  exact Path.stem_append hid (by decide)

theorem withFileName_ownFile (id name : String) :
    withFileName (store.ownFile id) name = store.sessionsRoot ++ [name] := by
  simp [withFileName, ownFile]

theorem rotatedLogPath_ownFile (hid : id ≠ "") (millis : Nat) :
    rotatedLogPath (store.ownFile id) millis =
      store.sessionsRoot ++ [id ++ ".rot-" ++ toString millis ++ ".jsonl"] := by
  unfold rotatedLogPath
  rw [stem_ownFile hid, withFileName_ownFile]

theorem ownFile_dropLast (id : String) : (store.ownFile id).dropLast = store.sessionsRoot := by
  simp [ownFile]

theorem ownFile_ne_nil (id : String) : store.ownFile id ≠ [] := by
  simp [ownFile]

theorem ownFile_injective : Function.Injective store.ownFile := by
  intro a b h
  unfold ownFile at h
  simp only [append_cancel_left_eq, List.cons.injEq, and_true] at h
  exact sessionFileName_injective h

theorem ownFile_ne_temporary {other : String} (hother : other ≠ "") (stamp : Stamp) :
    store.ownFile other ≠ temporaryPathFor (store.ownFile id) stamp := by
  intro heq
  unfold temporaryPathFor at heq
  rw [withFileName_ownFile, fileName_ownFile] at heq
  unfold ownFile at heq
  simp only [append_cancel_left_eq, List.cons.injEq, and_true] at heq
  have hext := congrArg Path.extension heq
  rw [extension_temporary] at hext
  unfold sessionFileName at hext
  rw [Path.extension_append other (by decide), if_neg hother] at hext
  split at hext
  · cases hext
  · have hlist := congrArg String.toList (Option.some.inj hext)
    simp [PRIMARY_SESSION_EXTENSION, String.toList_append] at hlist

/-- What the save of a session with the given id leaves: its own file, and around it at most
a rotated copy of what the file was. -/
structure SavedAs (store : SessionStore) (t t' : SessionTree) (id : String) (file : SessionFile) :
    Prop where
  outside : ∀ q, (∀ name, q ≠ store.sessionsRoot ++ [name]) → t'.get q = t.get q
  own : t'.get (store.ownFile id) = some (.file file)
  others : ∀ other, other ≠ "" → other ≠ id → ¬RotatedId other →
    t'.get (store.ownFile other) = t.get (store.ownFile other)
  entries : ∀ (name : String) (node : Node SessionFile),
    t'.get (store.sessionsRoot ++ [name]) = some node →
      name = sessionFileName id ∨ t.get (store.sessionsRoot ++ [name]) = some node ∨
        ∃ millis : Nat, name = id ++ ".rot-" ++ toString millis ++ ".jsonl" ∧
          t.get (store.ownFile id) = some node

theorem savedAs_saveToPath (hdir : t.get store.sessionsRoot = some .dir)
    (hfiles : ∀ name, t.get (store.sessionsRoot ++ [name]) ≠ some .dir)
    (hid : session.sessionId ≠ "") (hsnap : session.renderJsonlSnapshot = .ok snapshot)
    (stamps : SaveStamps) :
    SavedAs store t (session.saveToPath t (store.ownFile session.sessionId) stamps).1
      session.sessionId ⟨snapshot.map .char, stamps.written⟩ := by
  have hcopies {name : String}
      (h : isRotatedName (Path.stem (fileName (store.ownFile session.sessionId))) name = true)
      {q : Path} (hq : q = withFileName (store.ownFile session.sessionId) name) :
      isRotatedName session.sessionId name = true ∧ q = store.sessionsRoot ++ [name] := by
    rw [stem_ownFile hid] at h
    rw [withFileName_ownFile] at hq
    exact ⟨h, hq⟩
  have hnear (name : String) : t.get (withFileName (store.ownFile session.sessionId) name) ≠
      some .dir := by
    rw [withFileName_ownFile]
    exact hfiles name
  have hsaved : Saved t (session.saveToPath t (store.ownFile session.sessionId) stamps).1
      (store.ownFile session.sessionId) stamps ⟨snapshot.map .char, stamps.written⟩ :=
    saveToPath_saved (ownFile_ne_nil _) hsnap (by rwa [ownFile_dropLast]) (hfiles _) (hnear _)
      (hnear _)
  constructor
  · intro q hq
    apply hsaved.others q (hq _)
    · unfold temporaryPathFor
      rw [withFileName_ownFile]
      exact hq _
    · intro name hname heq
      exact hq name (hcopies hname heq).2
  · exact hsaved.own
  · intro other hother hne hrotated
    apply hsaved.others
    · exact fun heq => hne (ownFile_injective heq)
    · exact ownFile_ne_temporary hother stamps.temp
    · intro name hname heq
      obtain ⟨hname, heq⟩ := hcopies hname heq
      unfold ownFile at heq
      simp only [append_cancel_left_eq, List.cons.injEq, and_true] at heq
      rw [← heq, isRotatedName_sessionFileName hid hrotated] at hname
      cases hname
  · intro name node hnode
    rcases hsaved.entries _ node hnode with heq | h | ⟨heq, h⟩
    · unfold ownFile at heq
      simp only [append_cancel_left_eq, List.cons.injEq, and_true] at heq
      exact .inl heq
    · exact .inr (.inl h)
    · rw [rotatedLogPath_ownFile hid] at heq
      simp only [append_cancel_left_eq, List.cons.injEq, and_true] at heq
      exact .inr (.inr ⟨_, heq, h⟩)

structure Kept (store : SessionStore) (t : SessionTree) : Prop where
  dir : t.get store.sessionsRoot = some .dir
  saved : ∀ name node, t.get (store.sessionsRoot ++ [name]) = some node →
    ∃ file id, node = .file file ∧ PathSafe id ∧ file.Holds id ∧ NamesCopy id name
  own : ∀ id, PathSafe id → ¬RotatedId id →
    (∃ name file, t.get (store.sessionsRoot ++ [name]) = some (.file file) ∧ file.Holds id) →
      ∃ file, t.get (store.ownFile id) = some (.file file) ∧ file.Holds id

theorem Kept.files (h : Kept store t) (name : String) :
    t.get (store.sessionsRoot ++ [name]) ≠ some .dir := by
  intro hdir
  obtain ⟨file, id, heq, -⟩ := h.saved name _ hdir
  cases heq

theorem Kept.savedAs (h : Kept store t) {t' : SessionTree} {file : SessionFile} (hid : PathSafe id)
    (hholds : file.Holds id) (hsaved : SavedAs store t t' id file) :
    Kept store t' where
  dir := by
    rw [hsaved.outside store.sessionsRoot (by simp), h.dir]
  saved := by
    intro name node hnode
    rcases hsaved.entries name node hnode with rfl | hbefore | ⟨millis, rfl, hbefore⟩
    · have hown := hsaved.own
      unfold ownFile at hown
      rw [hnode] at hown
      cases hown
      exact ⟨file, id, rfl, hid, hholds, namesCopy_own id⟩
    · exact h.saved name node hbefore
    · obtain ⟨current, other, hcur, hother, hheld, hname⟩ := h.saved _ node hbefore
      exact ⟨current, other, hcur, hother, hheld, hname.rotated millis⟩
  own := by
    rintro other hother hrotated ⟨name, current, hnode, hheld⟩
    by_cases heq : other = id
    · subst heq
      exact ⟨file, hsaved.own, hholds⟩
    -- a file that holds another session was there before the save
    have hbefore : ∃ name file,
        t.get (store.sessionsRoot ++ [name]) = some (.file file) ∧ file.Holds other := by
      rcases hsaved.entries name _ hnode with rfl | hbefore | ⟨millis, rfl, hbefore⟩
      · have hown := hsaved.own
        unfold ownFile at hown
        rw [hnode] at hown
        cases hown
        exact absurd (hheld.unique hholds hnode) heq
      · exact ⟨name, current, hbefore, hheld⟩
      · exact ⟨_, current, hbefore, hheld⟩
    obtain ⟨file', hfile', hheld'⟩ := h.own other hother hrotated hbefore
    exact ⟨file', (hsaved.others other hother.nonempty heq hrotated).trans hfile', hheld'⟩

theorem isName_sessionFileName (h : PathSafe id) :
    Path.IsName (sessionFileName id) := by
  have hlist : (sessionFileName id).toList = id.toList ++ ".jsonl".toList := by
    simp [sessionFileName, PRIMARY_SESSION_EXTENSION, String.toList_append]
  have hlong {text : String} (htext : text.length < 3) : sessionFileName id ≠ text := by
    rintro rfl
    rw [← String.length_toList, hlist, length_append] at htext
    have hext : ".jsonl".toList.length = 6 := rfl
    omega
  refine ⟨hlong (by decide), hlong (by decide), hlong (by decide), ?_⟩
  rw [hlist, mem_append, not_or]
  exact ⟨h.separator, by decide⟩

theorem createHandle_path (h : PathSafe id) :
    (store.createHandle id).path = .ofLocation (store.ownFile id) :=
  PathBuf.join_of_isName _ (isName_sessionFileName h)

theorem walk_of_names (base : Path) {names : List String} (h : ∀ name ∈ names, name ≠ "..") :
    Path.walk base names = base ++ names := by
  induction names generalizing base with
  | nil => simp [Path.walk]
  | cons name rest ih =>
    have hname : name ≠ ".." := h name mem_cons_self
    have hrest := ih (base ++ [name]) fun other hother => h other (mem_cons_of_mem _ hother)
    unfold Path.walk at hrest ⊢
    rw [foldl_cons, if_neg hname, hrest]
    simp

theorem named_ownFile (h : PathSafe id) :
    ∀ name ∈ store.ownFile id, Path.IsName name := by
  intro name hname
  rcases mem_append.mp hname with hname | hname
  · exact store.named name hname
  · rw [mem_singleton.mp hname]
    exact isName_sessionFileName h

theorem createHandle_location (h : PathSafe id) :
    (store.createHandle id).path.location = store.ownFile id := by
  rw [createHandle_path h]
  exact walk_of_names [] fun name hname => (named_ownFile h name hname).2.2.1

/-- The trees that sessions saved or forked through the store lead to, from an empty
directory. Other programs may change everything outside of it in between. -/
inductive Reached (store : SessionStore) : SessionTree → Prop
  | start {t : SessionTree} (hdir : t.get store.sessionsRoot = some .dir)
      (hempty : ∀ name, t.get (store.sessionsRoot ++ [name]) = none) : Reached store t
  | save {t : SessionTree} (h : Reached store t) {session : Session}
      (hid : PathSafe session.sessionId) (htyped : session.Typed) (stamps : SaveStamps) :
      Reached store (session.saveToPath t (store.createHandle session.sessionId).path.location
        stamps).1
  | fork {t : SessionTree} (h : Reached store t) {session : Session} (htyped : session.Typed)
      (branchName : Option String) (now : Nat) (stamp : Stamp) (stamps : SaveStamps) :
      Reached store (store.forkSession session branchName now stamp t stamps).1
  | others {t t' : SessionTree} (h : Reached store t)
      (hdir : t'.get store.sessionsRoot = some .dir)
      (hsame : ∀ name rest, t'.get (store.sessionsRoot ++ name :: rest) =
        t.get (store.sessionsRoot ++ name :: rest)) : Reached store t'

theorem Kept.start (hdir : t.get store.sessionsRoot = some .dir)
    (hempty : ∀ name, t.get (store.sessionsRoot ++ [name]) = none) : Kept store t where
  dir := hdir
  saved := by
    intro name node hnode
    rw [hempty] at hnode
    cases hnode
  own := by
    rintro id - - ⟨name, file, hnode, -⟩
    rw [hempty] at hnode
    cases hnode

theorem Kept.save (h : Kept store t) (hid : PathSafe session.sessionId) (htyped : session.Typed)
    (stamps : SaveStamps) :
    Kept store (session.saveToPath t (store.createHandle session.sessionId).path.location
      stamps).1 := by
  rw [createHandle_location hid]
  cases hsnap : session.renderJsonlSnapshot with
  | error e =>
    unfold Session.saveToPath
    rw [hsnap]
    exact h
  | ok snapshot =>
    exact h.savedAs hid (holds_snapshot htyped hsnap _)
      (savedAs_saveToPath h.dir h.files hid.nonempty hsnap stamps)

theorem forkSession_tree (session : Session) (branchName : Option String) (now : Nat)
    (stamp : Stamp) (stamps : SaveStamps) :
    let forked := store.forkedSession session branchName now stamp
    (store.forkSession session branchName now stamp t stamps).1 =
      (forked.saveToPath t (store.createHandle forked.sessionId).path.location stamps).1 := by
  dsimp only
  unfold forkSession
  dsimp only
  split
  all_goals
    rename_i hsave
    rw [hsave]

theorem typed_forkedSession (htyped : session.Typed) (branchName : Option String) (now : Nat)
    (stamp : Stamp) :
    (store.forkedSession session branchName now stamp).Typed :=
  ⟨htyped.version, htyped.messages, htyped.compaction⟩

theorem kept_of_reached (h : Reached store t) : Kept store t := by
  induction h with
  | start hdir hempty => exact Kept.start hdir hempty
  | save _ hid htyped stamps ih => exact ih.save hid htyped stamps
  | fork _ htyped branchName now stamp stamps ih =>
    rw [forkSession_tree]
    exact ih.save (pathSafe_generateSessionId stamp)
      (typed_forkedSession htyped branchName now stamp) stamps
  | others _ hdir hsame ih =>
    exact {
      dir := hdir
      saved := fun name node hnode => ih.saved name node (hsame name [] ▸ hnode)
      own := by
        rintro id hid hrotated ⟨name, file, hnode, hheld⟩
        obtain ⟨file', hfile', hheld'⟩ :=
          ih.own id hid hrotated ⟨name, file, hsame name [] ▸ hnode, hheld⟩
        exact ⟨file', (hsame _ []).trans hfile', hheld'⟩ }

end SessionStore

end DbClinic.Runtime
