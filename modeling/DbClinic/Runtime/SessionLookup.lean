import DbClinic.Runtime.StoredSessions

/-!
Listed sessions opened by their ids. A listing goes by the id inside a file, a reference by
the aliases, the workspace and the dot of a file name before it goes by the name of a file
in the store. The two agree exactly where nothing of that gets in between.
-/

namespace DbClinic.Runtime

open List

variable {t : SessionTree} {id : String}

theorem follow_eq_ok_iff {here location : Path} {names : List String}
    (h : ∀ name ∈ names, name ≠ "." ∧ name ≠ "..") :
    follow t here names = .ok location ↔
      location = here ++ names ∧ t.pathExists (here ++ names) = true := by
  induction names generalizing here with
  | nil =>
    unfold follow
    rw [append_nil]
    split
    · rename_i hexists
      constructor
      · intro heq
        cases heq
        exact ⟨rfl, hexists⟩
      · rintro ⟨rfl, -⟩
        rfl
    · rename_i hmissing
      constructor
      · intro heq
        cases heq
      · rintro ⟨-, hexists⟩
        exact absurd hexists hmissing
  | cons name rest ih =>
    obtain ⟨hdot, hup⟩ := h name mem_cons_self
    have hrest := @ih (here ++ [name]) fun other hother => h other (mem_cons_of_mem _ hother)
    rw [append_assoc, singleton_append] at hrest
    unfold follow
    split
    · rw [if_neg hdot, if_neg hup, hrest]
    all_goals
      rename_i hnode
      constructor
      · intro herror
        cases herror
      · rintro ⟨-, hexists⟩
        obtain ⟨node, hbelow⟩ := Option.isSome_iff_exists.mp hexists
        have hdir := FileTree.get_ancestor hbelow (prefix_append here (name :: rest))
          (by simp)
        rw [hnode] at hdir
        cases hdir

theorem locate_ofLocation_iff {cwd location place : Path}
    (h : ∀ name ∈ place, name ≠ "." ∧ name ≠ "..") :
    locate t cwd (.ofLocation place) = .ok location ↔
      location = place ∧ t.pathExists place = true := by
  have hiff := @follow_eq_ok_iff t [] location place h
  unfold locate
  rw [if_neg (by simp [PathBuf.ofLocation]), PathBuf.osNames_ofLocation]
  simpa [PathBuf.ofLocation] using hiff

theorem existsPath_ofLocation {cwd place : Path} (h : ∀ name ∈ place, name ≠ "." ∧ name ≠ "..")
    (hexists : t.pathExists place = true) :
    existsPath t cwd (.ofLocation place) = true := by
  unfold existsPath
  rw [(locate_ofLocation_iff h).mpr ⟨rfl, hexists⟩]

theorem extension_isSome {base rest : String} (h : base ≠ "") :
    (Path.extension (base ++ "." ++ rest)).isSome = true := by
  have hreverse : (base ++ "." ++ rest).toList.reverse =
      rest.toList.reverse ++ '.' :: base.toList.reverse := by simp
  have hbase : base.toList.reverse ≠ [] := by simpa using h
  unfold Path.extension
  rw [hreverse, dropWhile_append]
  cases rest.toList.reverse.dropWhile (· ≠ '.') with
  | nil => simp [hbase]
  | cons c more => simp

theorem not_rotatedId_of_alias (h : isSessionReferenceAlias id = true) :
    ¬RotatedId id := by
  rintro ⟨base, rest, -, rfl⟩
  unfold isSessionReferenceAlias at h
  rw [any_eq_true] at h
  obtain ⟨word, hword, heq⟩ := h
  rw [decide_eq_true_eq] at heq
  have hdot : '.' ∈ (base ++ ".rot-" ++ rest).toList.map Char.toLower := by
    simp [String.toList_append]
  rw [heq] at hdot
  have hplain : ∀ word ∈ SESSION_REFERENCE_ALIASES, '.' ∉ word.toList.map Char.toLower := by
    decide
  exact hplain word hword hdot

theorem ofText_of_no_separator {text : String} (h : '/' ∉ text.toList) (hempty : text ≠ "")
    (hdot : text ≠ ".") : PathBuf.ofText text = ⟨false, [text], false⟩ := by
  have habsolute := PathBuf.isAbsoluteText_of_no_separator h
  have hsegments := PathBuf.segments_of_no_separator h
  unfold PathBuf.ofText
  rw [if_neg (by simp [habsolute]), hsegments]
  split
  · rename_i heq
    simp at heq
    exact absurd heq hdot
  · rename_i heq
    simp at heq
    exact absurd heq.1 hdot
  · simp [PathBuf.normals, PathBuf.endsInDirectory, hsegments, hempty, hdot]

theorem looksLikePath_of_rotatedId (hid : PathSafe id) (h : RotatedId id) :
    SessionStore.looksLikePath id = true := by
  obtain ⟨base, rest, hbase, heq⟩ := h
  have hlong (text : String) (htext : text.length < 3) : id ≠ text := by
    rintro rfl
    rw [heq] at htext
    simp only [String.length_append] at htext
    have hrot : ".rot-".length = 5 := rfl
    omega
  have hname : id = base ++ "." ++ ("rot-" ++ rest) := by
    rw [heq]
    apply String.toList_injective
    simp [String.toList_append]
  unfold SessionStore.looksLikePath
  rw [ofText_of_no_separator hid.separator hid.nonempty (hlong "." (by decide))]
  have hfileName : PathBuf.fileName ⟨false, [id], false⟩ = some id := by
    simp [PathBuf.fileName, hlong "." (by decide), hlong ".." (by decide)]
  dsimp only
  rw [hfileName, Option.bind_some, hname, extension_isSome hbase]
  rfl

theorem candidate_ne_ownFile {store : SessionStore} (hid : PathSafe id) :
    store.candidate id ≠ .ofLocation (store.ownFile id) := by
  intro heq
  unfold SessionStore.candidate at heq
  rw [PathBuf.join_of_no_separator _ hid.separator] at heq
  unfold PathBuf.ofLocation at heq
  simp only [PathBuf.mk.injEq, true_and, decide_eq_false_iff_not, not_or] at heq
  obtain ⟨hnames, hempty, hdot⟩ := heq
  have hlast := congrArg List.getLast? hnames
  simp [hempty, hdot, SessionStore.ownFile] at hlast
  have hlen := congrArg String.length hlast
  simp only [sessionFileName, String.length_append] at hlen
  have hone : ".".length = 1 := rfl
  omega

namespace SessionStore

variable {store : SessionStore} {cwd : Path} {t : SessionTree}

variable {stamps loading : LoadStamps} {session : Session} {summary : ManagedSessionSummary}
variable {name : String} {file : SessionFile} {place directory : Path}

theorem steps_entry (hname : name ≠ "." ∧ name ≠ "..") :
    ∀ other ∈ store.sessionsRoot ++ [name], other ≠ "." ∧ other ≠ ".." := by
  intro other hother
  rcases mem_append.mp hother with hother | hother
  · exact ⟨(store.named other hother).2.1, (store.named other hother).2.2.1⟩
  · rwa [mem_singleton.mp hother]

theorem steps_sessionFileName (id : String) :
    sessionFileName id ≠ "." ∧ sessionFileName id ≠ ".." := by
  have hlong (text : String) (htext : text.length < 3) : sessionFileName id ≠ text := by
    rintro rfl
    simp only [sessionFileName, PRIMARY_SESSION_EXTENSION, String.length_append] at htext
    have hext : "jsonl".length = 5 := rfl
    omega
  exact ⟨hlong "." (by decide), hlong ".." (by decide)⟩

theorem steps_ownFile (id : String) : ∀ name ∈ store.ownFile id, name ≠ "." ∧ name ≠ ".." :=
  steps_entry (steps_sessionFileName id)

theorem loadFile_eq (h : ∀ name ∈ place, name ≠ "." ∧ name ≠ "..")
    (hfile : t.get place = some (.file file)) :
    loadFile cwd t stamps (.ofLocation place) = Session.loadFromPath t place
      (stamps (.ofLocation place)).1 (stamps (.ofLocation place)).2 := by
  unfold loadFile
  rw [(locate_ofLocation_iff h).mpr ⟨rfl, FileTree.pathExists_of_get hfile⟩]

theorem file_of_loadFile (h : ∀ name ∈ place, name ≠ "." ∧ name ≠ "..")
    (hload : loadFile cwd t stamps (.ofLocation place) = .ok session) :
    ∃ file, t.get place = some (.file file) := by
  unfold loadFile at hload
  split at hload
  · cases hload
  · rename_i location hlocate
    obtain ⟨rfl, -⟩ := (locate_ofLocation_iff h).mp hlocate
    unfold Session.loadFromPath readToString FileTree.readFile at hload
    cases hnode : t.get location with
    | none =>
      rw [hnode] at hload
      cases hload
    | some node =>
      cases node with
      | dir =>
        rw [hnode] at hload
        cases hload
      | file file => exact ⟨file, rfl⟩

variable (cwd) in
theorem loadFile_of_loads (h : ∀ name ∈ place, name ≠ "." ∧ name ≠ "..")
    (hfile : t.get place = some (.file file)) (hloads : file.Loads session) (stamps : LoadStamps) :
    loadFile cwd t stamps (.ofLocation place) = .ok (session.withPersistencePath place) := by
  rw [loadFile_eq h hfile, hloads t place hfile]

variable (cwd) in
theorem loadFile_of_holds (h : ∀ name ∈ place, name ≠ "." ∧ name ≠ "..")
    (hfile : t.get place = some (.file file)) (hholds : file.Holds id) :
    ∃ session : Session, session.sessionId = id ∧
      ∀ stamps : LoadStamps, loadFile cwd t stamps (.ofLocation place) = .ok session := by
  obtain ⟨session, hid, hloads⟩ := hholds
  exact ⟨session.withPersistencePath place, hid, loadFile_of_loads cwd h hfile hloads⟩

theorem summaryOf_parsed (h : store.summaryOf cwd t stamps directory name = some summary)
    (hload : loadFile cwd t stamps summary.path = .ok session) :
    summary.id = session.sessionId ∧ isManagedSessionFile summary.path = true ∧
      store.validateLoadedSession cwd t summary.path session = .ok () := by
  unfold summaryOf at h
  dsimp only at h
  split at h
  · rename_i hmanaged
    cases hparse : loadFile cwd t stamps (.ofLocation (directory ++ [name])) with
    | error e =>
      rw [hparse] at h
      cases h
      rw [hparse] at hload
      cases hload
    | ok loaded =>
      rw [hparse] at h
      dsimp only at h
      split at h
      · cases h
      · rename_i hvalid
        cases h
        rw [hparse] at hload
        cases hload
        exact ⟨rfl, hmanaged, hvalid⟩
  · cases h

theorem step_of_managed (h : isManagedSessionFile (.ofLocation (directory ++ [name])) = true) :
    name ≠ "." ∧ name ≠ ".." := by
  by_contra hstep
  have hnone : PathBuf.fileName (.ofLocation (directory ++ [name])) = none := by
    simp only [PathBuf.fileName, PathBuf.ofLocation, getLast?_concat]
    simpa [Option.filter] using hstep
  unfold isManagedSessionFile at h
  rw [hnone] at h
  cases h

theorem mem_collectSessionsFromDir {summaries : List ManagedSessionSummary}
    (h : store.collectSessionsFromDir cwd t stamps directory = .ok summaries)
    (hmem : summary ∈ summaries) :
    ∃ name, store.summaryOf cwd t stamps directory name = some summary := by
  unfold collectSessionsFromDir at h
  split at h
  · cases h
    cases hmem
  · cases h
  · split at h
    · cases h
      obtain ⟨name, -, hsummary⟩ := mem_filterMap.mp hmem
      exact ⟨name, hsummary⟩
    · cases h

theorem mem_listSessions {summaries : List ManagedSessionSummary}
    (h : store.listSessions cwd t stamps = .ok summaries) (hmem : summary ∈ summaries) :
    ∃ directory name, store.summaryOf cwd t stamps directory name = some summary := by
  unfold listSessions at h
  obtain ⟨collected, hcollected, rfl⟩ := Outcomes.map_eq_ok h
  unfold sortManagedSessions at hmem
  rw [SortBy.mem_sortBy] at hmem
  unfold collectSessions at hcollected
  obtain ⟨own, hown, hcollected⟩ := Outcomes.bind_eq_ok hcollected
  split at hcollected
  · cases hcollected
    obtain ⟨name, hname⟩ := mem_collectSessionsFromDir hown hmem
    exact ⟨_, name, hname⟩
  · obtain ⟨legacy, hlegacy, hcollected⟩ := Outcomes.bind_eq_ok hcollected
    cases hcollected
    rcases mem_append.mp hmem with hmem | hmem
    · obtain ⟨name, hname⟩ := mem_collectSessionsFromDir hown hmem
      exact ⟨_, name, hname⟩
    · obtain ⟨name, hname⟩ := mem_collectSessionsFromDir hlegacy hmem
      exact ⟨_, name, hname⟩

instance : Std.TransCmp managedOrder := by
  have hkeys : Std.TransCmp (compareLex
      (compareLex (compareOn ManagedSessionSummary.updatedAtMs)
        (compareOn ManagedSessionSummary.modifiedEpochMillis))
      (compareOn ManagedSessionSummary.id)) := inferInstance
  exact @Std.TransCmp.opposite _ _ hkeys

theorem latestSession_iff {latest : ManagedSessionSummary} :
    store.latestSession cwd t stamps = .ok latest ↔
      ∃ summaries, store.collectSessions cwd t stamps = .ok summaries ∧
        SortBy.Foremost managedOrder summaries latest := by
  unfold latestSession listSessions
  cases store.collectSessions cwd t stamps with
  | error e => simp [Except.map]
  | ok summaries =>
    simp only [Except.map, Except.ok.injEq, exists_eq_left']
    rw [← SortBy.head?_sortBy_iff]
    unfold sortManagedSessions
    cases SortBy.sortBy managedOrder summaries with
    | nil => simp
    | cons first rest => simp

/-- The id loads the session with that id from the store's own file of it. -/
def Opens (store : SessionStore) (cwd : Path) (t : SessionTree) (stamps loading : LoadStamps)
    (id : String) : Prop :=
  ∃ loaded, store.loadSession cwd t stamps loading id = .ok loaded ∧
    loaded.session.sessionId = id ∧ loaded.handle = ⟨id, .ofLocation (store.ownFile id)⟩

/-- The file's session names the workspace, or names none and lies within it. -/
def Accepts (store : SessionStore) (cwd : Path) (t : SessionTree) (path : PathBuf) : Prop :=
  ∀ (stamps : LoadStamps) (session : Session), loadFile cwd t stamps path = .ok session →
    store.validateLoadedSession cwd t path session = .ok ()

/-- What a listed session needs to be opened by its id. -/
structure Openable (store : SessionStore) (cwd : Path) (t : SessionTree) (stamps : LoadStamps)
    (summary : ManagedSessionSummary) : Prop where
  /-- A session that is listed from elsewhere has a file in the store, too. -/
  kept : (∃ name, summary.path = .ofLocation (store.sessionsRoot ++ [name])) ∨
    sessionFileName summary.id ∈ t.readDir store.sessionsRoot
  /-- A session that is listed from a copy has its own file in the workspace. -/
  bound : summary.path ≠ .ofLocation (store.ownFile summary.id) →
    store.Accepts cwd t (.ofLocation (store.ownFile summary.id))
  /-- An alias is the id of the latest session. -/
  latest : isSessionReferenceAlias summary.id = true →
    ∃ summaries first, store.collectSessions cwd t stamps = .ok summaries ∧
      SortBy.Foremost managedOrder summaries first ∧
      first.path = .ofLocation (store.ownFile summary.id)
  /-- Another id has no dot after its first character and names no entry of the workspace. -/
  plain : isSessionReferenceAlias summary.id = false →
    existsPath t cwd (store.candidate summary.id) = false ∧ looksLikePath summary.id = false

theorem not_rotatedId_of_openable (h : store.Openable cwd t stamps summary)
    (hid : PathSafe summary.id) :
    ¬RotatedId summary.id := by
  cases halias : isSessionReferenceAlias summary.id with
  | true => exact not_rotatedId_of_alias halias
  | false =>
    intro hrotated
    have hlooks := (h.plain halias).2
    rw [looksLikePath_of_rotatedId hid hrotated] at hlooks
    cases hlooks

theorem Kept.pathSafe (h : Kept store t)
    (hentry : sessionFileName id ∈ t.readDir store.sessionsRoot) : PathSafe id := by
  obtain ⟨node, hnode⟩ := (FileTree.mem_readDir t _ _).mp hentry
  obtain ⟨file, other, -, hother, -, suffix, hname, hseparator, -⟩ := h.saved _ _ hnode
  rw [sessionFileName_injective hname]
  constructor
  · intro hempty
    exact hother.nonempty (by simpa using (String.append_eq_empty_iff.mp hempty).1)
  · rw [String.toList_append, mem_append, not_or]
    exact ⟨hother.separator, hseparator⟩

theorem Kept.holds (h : Kept store t) (hrotated : ¬RotatedId id)
    (hentry : sessionFileName id ∈ t.readDir store.sessionsRoot) :
    ∃ file, t.get (store.ownFile id) = some (.file file) ∧ file.Holds id := by
  obtain ⟨node, hnode⟩ := (FileTree.mem_readDir t _ _).mp hentry
  obtain ⟨file, other, rfl, hother, hholds, hname⟩ := h.saved _ _ hnode
  rw [hname.eq hother.nonempty hrotated]
  rw [hname.eq hother.nonempty hrotated] at hnode
  exact ⟨file, hnode, hholds⟩

theorem loadSession_ok_iff {reference : String} {loaded : LoadedManagedSession} :
    store.loadSession cwd t stamps loading reference = .ok loaded ↔
      ∃ handle session, store.resolveReference cwd t stamps reference = .ok handle ∧
        loadFile cwd t loading handle.path = .ok session ∧
        store.validateLoadedSession cwd t handle.path session = .ok () ∧
        loaded = ⟨⟨session.sessionId, handle.path⟩, session⟩ := by
  unfold loadSession
  constructor
  · intro h
    obtain ⟨handle, hresolve, h⟩ := Outcomes.bind_eq_ok h
    split at h
    · cases h
    · rename_i session hload
      obtain ⟨⟨⟩, hvalid, h⟩ := Outcomes.bind_eq_ok h
      cases h
      exact ⟨handle, session, hresolve, hload, hvalid, rfl⟩
  · rintro ⟨handle, session, hresolve, hload, hvalid, rfl⟩
    rw [hresolve, Outcomes.ok_bind, hload]
    dsimp only
    rw [hvalid, Outcomes.ok_bind]
    rfl

theorem opens_iff :
    store.Opens cwd t stamps loading id ↔
      (∃ handle, store.resolveReference cwd t stamps id = .ok handle ∧
        handle.path = .ofLocation (store.ownFile id)) ∧
      ∃ session, loadFile cwd t loading (.ofLocation (store.ownFile id)) = .ok session ∧
        store.validateLoadedSession cwd t (.ofLocation (store.ownFile id)) session = .ok () ∧
        session.sessionId = id := by
  unfold Opens
  simp only [loadSession_ok_iff]
  constructor
  · rintro ⟨loaded, ⟨handle, session, hresolve, hload, hvalid, rfl⟩, hid, hhandle⟩
    have hpath : handle.path = .ofLocation (store.ownFile id) := congrArg SessionHandle.path hhandle
    rw [hpath] at hload hvalid
    exact ⟨⟨handle, hresolve, hpath⟩, session, hload, hvalid, hid⟩
  · rintro ⟨⟨handle, hresolve, hpath⟩, session, hload, hvalid, hid⟩
    refine ⟨_, ⟨handle, session, hresolve, hpath ▸ hload, hpath ▸ hvalid, rfl⟩, hid, ?_⟩
    rw [hid, hpath]

theorem resolveReference_alias (halias : isSessionReferenceAlias id = true) :
    (∃ handle, store.resolveReference cwd t stamps id = .ok handle ∧
      handle.path = .ofLocation (store.ownFile id)) ↔
      ∃ summaries first, store.collectSessions cwd t stamps = .ok summaries ∧
        SortBy.Foremost managedOrder summaries first ∧
        first.path = .ofLocation (store.ownFile id) := by
  unfold resolveReference
  rw [if_pos halias]
  constructor
  · rintro ⟨handle, hresolve, hpath⟩
    obtain ⟨latest, hlatest, rfl⟩ := Outcomes.map_eq_ok hresolve
    obtain ⟨summaries, hcollected, hfirst⟩ := latestSession_iff.mp hlatest
    exact ⟨summaries, latest, hcollected, hfirst, hpath⟩
  · rintro ⟨summaries, first, hcollected, hfirst, hpath⟩
    rw [latestSession_iff.mpr ⟨summaries, hcollected, hfirst⟩]
    exact ⟨_, rfl, hpath⟩

theorem resolveManagedPath_own (hid : PathSafe id)
    (hexists : t.pathExists (store.ownFile id) = true) :
    store.resolveManagedPath cwd t stamps id = .ok (.ofLocation (store.ownFile id)) := by
  have hpath : (PathBuf.ofLocation store.sessionsRoot).join
      (id ++ "." ++ PRIMARY_SESSION_EXTENSION) = .ofLocation (store.ownFile id) :=
    createHandle_path hid
  have hfound : existsPath t cwd (.ofLocation (store.ownFile id)) = true :=
    existsPath_ofLocation (steps_ownFile id) hexists
  have hfile : managedFile cwd t store.sessionsRoot id =
      some (.ofLocation (store.ownFile id)) := by
    unfold managedFile
    rw [map_cons, hpath, find?_cons, hfound]
  unfold resolveManagedPath
  rw [hfile]

theorem resolveReference_plain (hid : PathSafe id)
    (hexists : t.pathExists (store.ownFile id) = true)
    (halias : isSessionReferenceAlias id = false) :
    (∃ handle, store.resolveReference cwd t stamps id = .ok handle ∧
      handle.path = .ofLocation (store.ownFile id)) ↔
      existsPath t cwd (store.candidate id) = false ∧ looksLikePath id = false := by
  unfold resolveReference
  rw [if_neg (by simp [halias])]
  dsimp only
  constructor
  · rintro ⟨handle, hresolve, hpath⟩
    obtain ⟨path, hresolved, rfl⟩ := Outcomes.map_eq_ok hresolve
    dsimp only at hpath
    subst hpath
    split at hresolved
    · exact absurd (Except.ok.inj hresolved) (candidate_ne_ownFile hid)
    · split at hresolved
      · cases hresolved
      · rename_i hcand hlooks
        exact ⟨by simpa using hcand, by simpa using hlooks⟩
  · rintro ⟨hcand, hlooks⟩
    rw [if_neg (by simp [hcand]), if_neg (by simp [hlooks]),
      resolveManagedPath_own hid hexists]
    exact ⟨_, rfl, rfl⟩

theorem collectSessionsFromDir_of_dir (h : ∀ name ∈ directory, name ≠ "." ∧ name ≠ "..")
    (hdir : t.get directory = some .dir) :
    store.collectSessionsFromDir cwd t stamps directory =
      .ok ((t.readDir directory).filterMap (store.summaryOf cwd t stamps directory)) := by
  unfold collectSessionsFromDir
  rw [(locate_ofLocation_iff h).mpr ⟨rfl, FileTree.pathExists_of_get hdir⟩]
  dsimp only
  rw [hdir]

theorem listed_of_summaryOf (hdir : t.get store.sessionsRoot = some .dir)
    (hname : name ∈ t.readDir store.sessionsRoot)
    (hsummary : store.summaryOf cwd t stamps store.sessionsRoot name = some summary) :
    ∃ summaries, store.listSessions cwd t stamps = .ok summaries ∧ summary ∈ summaries := by
  have hroot : ∀ name ∈ store.sessionsRoot, name ≠ "." ∧ name ≠ ".." :=
    fun name hname => ⟨(store.named name hname).2.1, (store.named name hname).2.2.1⟩
  have hmem : summary ∈ (t.readDir store.sessionsRoot).filterMap
      (store.summaryOf cwd t stamps store.sessionsRoot) :=
    mem_filterMap.mpr ⟨name, hname, hsummary⟩
  unfold listSessions collectSessions
  rw [collectSessionsFromDir_of_dir hroot hdir, Outcomes.ok_bind]
  unfold legacySessionsRoot
  split
  · rename_i hnone
    exact ⟨_, rfl, (SortBy.mem_sortBy _).mpr hmem⟩
  · rename_i legacy hlegacy
    obtain ⟨-, heq⟩ := Option.ite_none_right_eq_some.mp hlegacy
    cases heq
    have hparent : t.get store.sessionsRoot.dropLast = some .dir := by
      by_cases hnil : store.sessionsRoot = []
      · simp [hnil]
      · rw [← dropLast_append_getLast hnil] at hdir
        exact FileTree.get_parent hdir
    have hnames : ∀ name ∈ store.sessionsRoot.dropLast, name ≠ "." ∧ name ≠ ".." :=
      fun name hname => hroot name (mem_of_mem_dropLast hname)
    rw [collectSessionsFromDir_of_dir hnames hparent]
    exact ⟨_, rfl, (SortBy.mem_sortBy _).mpr (mem_append_left _ hmem)⟩

theorem listed_of_loads (stamps : LoadStamps) (hid : id ≠ "")
    (hdir : t.get store.sessionsRoot = some .dir)
    (hfile : t.get (store.ownFile id) = some (.file file)) (hloads : file.Loads session)
    (haccepts : store.Accepts cwd t (.ofLocation (store.ownFile id))) :
    ∃ summaries summary, store.listSessions cwd t stamps = .ok summaries ∧ summary ∈ summaries ∧
      summary.id = session.sessionId ∧ summary.path = .ofLocation (store.ownFile id) := by
  have hload := loadFile_of_loads cwd (steps_ownFile id) hfile hloads stamps
  have hvalid := haccepts stamps _ hload
  have hmanaged : isManagedSessionFile (.ofLocation (store.ownFile id)) = true := by
    have hfileName : PathBuf.fileName (.ofLocation (store.ownFile id)) =
        some (sessionFileName id) := by
      simp [PathBuf.fileName, PathBuf.ofLocation, ownFile, steps_sessionFileName id]
    unfold isManagedSessionFile
    rw [hfileName, Option.bind_some]
    unfold sessionFileName
    rw [Path.extension_append id (by decide), if_neg hid]
    rfl
  have hsummary : ∃ summary, store.summaryOf cwd t stamps store.sessionsRoot (sessionFileName id) =
      some summary ∧ summary.id = session.sessionId ∧
        summary.path = .ofLocation (store.ownFile id) := by
    unfold summaryOf
    dsimp only
    unfold ownFile at hmanaged hload hvalid
    rw [if_pos hmanaged, hload]
    dsimp only
    rw [hvalid]
    exact ⟨_, rfl, rfl, rfl⟩
  obtain ⟨summary, hsummary, hsame, hpath⟩ := hsummary
  obtain ⟨summaries, hlist, hmem⟩ :=
    listed_of_summaryOf hdir ((FileTree.mem_readDir t _ _).mpr ⟨_, hfile⟩) hsummary
  exact ⟨summaries, summary, hlist, hmem, hsame, hpath⟩

variable (cwd) in
theorem accepts_of_unbound (hdir : t.get store.sessionsRoot = some .dir)
    (hfile : t.get (store.ownFile id) = some (.file file)) (hloads : file.Loads session)
    (hunbound : session.workspaceRoot = none)
    (hwithin : store.workspaceRoot <+: store.sessionsRoot) :
    store.Accepts cwd t (.ofLocation (store.ownFile id)) := by
  intro stamps loaded hload
  rw [loadFile_of_loads cwd (steps_ownFile id) hfile hloads] at hload
  cases hload
  have hown : locate t cwd (.ofLocation (store.ownFile id)) = .ok (store.ownFile id) :=
    (locate_ofLocation_iff (steps_ownFile id)).mpr ⟨rfl, FileTree.pathExists_of_get hfile⟩
  have hworkspace : locate t cwd (.ofLocation store.workspaceRoot) = .ok store.workspaceRoot := by
    apply (locate_ofLocation_iff _).mpr
    · refine ⟨rfl, ?_⟩
      by_cases heq : store.workspaceRoot = store.sessionsRoot
      · rw [heq]
        exact FileTree.pathExists_of_get hdir
      · exact FileTree.pathExists_of_get (FileTree.get_ancestor hdir hwithin heq)
    · intro name hname
      have hnamed := store.named name (hwithin.subset hname)
      exact ⟨hnamed.2.1, hnamed.2.2.1⟩
  have hpre : store.workspaceRoot <+: store.ownFile id :=
    hwithin.trans (prefix_append _ _)
  unfold validateLoadedSession
  have hnone : (session.withPersistencePath (store.ownFile id)).workspaceRoot = none := hunbound
  rw [hnone]
  dsimp only
  rw [if_pos]
  unfold pathIsWithinWorkspace canonicalizeForCompare
  rw [hown, hworkspace]
  simp [PathBuf.startsWith, PathBuf.ofLocation, hpre]

theorem Kept.own_of_listed (h : Kept store t) {listing : LoadStamps}
    (hload : loadFile cwd t listing (.ofLocation (store.sessionsRoot ++ [name])) = .ok session)
    (hname : name ≠ "." ∧ name ≠ "..") :
    PathSafe session.sessionId ∧ (¬RotatedId session.sessionId →
      ∃ file, t.get (store.ownFile session.sessionId) = some (.file file) ∧
        file.Holds session.sessionId) := by
  obtain ⟨file, hfile⟩ := file_of_loadFile (steps_entry hname) hload
  obtain ⟨held, id, hnode, hid, hholds, -⟩ := h.saved _ _ hfile
  cases hnode
  obtain ⟨always, rfl, hall⟩ := loadFile_of_holds cwd (steps_entry hname) hfile hholds
  rw [hall] at hload
  cases hload
  exact ⟨hid, fun hrotated => h.own _ hid hrotated ⟨name, file, hfile, hholds⟩⟩

theorem Kept.accepts (h : Kept store t) {loaded : Session}
    (hload : loadFile cwd t loading (.ofLocation (store.ownFile id)) = .ok loaded)
    (hvalid : store.validateLoadedSession cwd t (.ofLocation (store.ownFile id)) loaded = .ok ()) :
    store.Accepts cwd t (.ofLocation (store.ownFile id)) := by
  obtain ⟨file, hfile⟩ := file_of_loadFile (steps_ownFile id) hload
  obtain ⟨held, other, hnode, -, hholds, -⟩ := h.saved _ _ hfile
  cases hnode
  obtain ⟨always, -, hall⟩ := loadFile_of_holds cwd (steps_ownFile id) hfile hholds
  rw [hall] at hload
  cases hload
  intro stamps session hsession
  rw [hall] at hsession
  cases hsession
  exact hvalid

theorem Openable.own (h : store.Openable cwd t stamps summary) (hkept : Kept store t)
    {listing : LoadStamps} (hparse : loadFile cwd t listing summary.path = .ok session)
    (hmanaged : isManagedSessionFile summary.path = true)
    (hsession : summary.id = session.sessionId) :
    PathSafe summary.id ∧
      ∃ file, t.get (store.ownFile summary.id) = some (.file file) ∧ file.Holds summary.id := by
  have hown : PathSafe summary.id ∧ (¬RotatedId summary.id →
      ∃ file, t.get (store.ownFile summary.id) = some (.file file) ∧ file.Holds summary.id) := by
    rcases h.kept with ⟨name, hpath⟩ | hentry
    · rw [hpath] at hparse hmanaged
      rw [hsession]
      exact hkept.own_of_listed hparse (step_of_managed hmanaged)
    · exact ⟨hkept.pathSafe hentry, fun hrotated => hkept.holds hrotated hentry⟩
  exact ⟨hown.1, hown.2 (not_rotatedId_of_openable h hown.1)⟩

/-- In every run each listed session is opened by its id exactly if it is openable. -/
theorem opens_iff_openable (hreached : Reached store t) {listing stamps loading : LoadStamps}
    {summaries : List ManagedSessionSummary} {summary : ManagedSessionSummary} {session : Session}
    (hlist : store.listSessions cwd t listing = .ok summaries) (hmem : summary ∈ summaries)
    (hparse : loadFile cwd t listing summary.path = .ok session) :
    store.Opens cwd t stamps loading summary.id ↔ store.Openable cwd t stamps summary := by
  have hkept := kept_of_reached hreached
  obtain ⟨directory, listed, hsummary⟩ := mem_listSessions hlist hmem
  obtain ⟨hsession, hmanaged, hvalid⟩ := summaryOf_parsed hsummary hparse
  rw [opens_iff]
  constructor
  · rintro ⟨hresolve, loaded, hload, hbound, hloaded⟩
    obtain ⟨file, hfile⟩ := file_of_loadFile (steps_ownFile _) hload
    have hentry : sessionFileName summary.id ∈ t.readDir store.sessionsRoot :=
      (FileTree.mem_readDir t _ _).mpr ⟨_, hfile⟩
    have hid := hkept.pathSafe hentry
    have hexists := FileTree.pathExists_of_get hfile
    constructor
    · exact .inr hentry
    · exact fun _ => hkept.accepts hload hbound
    · exact fun halias => (resolveReference_alias halias).mp hresolve
    · exact fun halias => (resolveReference_plain hid hexists halias).mp hresolve
  · intro h
    obtain ⟨hid, file, hfile, hholds⟩ := h.own hkept hparse hmanaged hsession
    obtain ⟨loaded, hloaded, hall⟩ := loadFile_of_holds cwd (steps_ownFile _) hfile hholds
    have hexists := FileTree.pathExists_of_get hfile
    constructor
    · cases halias : isSessionReferenceAlias summary.id with
      | true => exact (resolveReference_alias halias).mpr (h.latest halias)
      | false => exact (resolveReference_plain hid hexists halias).mpr (h.plain halias)
    · refine ⟨loaded, hall loading, ?_, hloaded⟩
      by_cases hpath : summary.path = .ofLocation (store.ownFile summary.id)
      · rw [hpath, hall] at hparse
        cases hparse
        rw [← hpath]
        exact hvalid
      · exact h.bound hpath stamps loaded (hall stamps)

def projectStore : SessionStore := ⟨["ws", ".claw", "sessions", "00"], ["ws"], by decide⟩

def emptyProject : SessionTree :=
  match FileTree.empty.createDirAll projectStore.sessionsRoot with
  | .ok t => t
  | .error _ => .empty

def namedSession (id : String) : Session := { Session.new 5 ⟨5, 0⟩ with sessionId := id }

def projectWith (id : String) : SessionTree :=
  ((namedSession id).saveToPath emptyProject (projectStore.createHandle id).path.location
    ⟨1, ⟨2, 0⟩, 3⟩).1

theorem get_emptyProject (q : Path) :
    emptyProject.get q = if q <+: projectStore.sessionsRoot then some .dir else none := by
  have hmade : ∃ t : SessionTree,
      FileTree.empty.createDirAll projectStore.sessionsRoot = .ok t := by
    apply (FileTree.createDirAll_ok_iff _ _).mpr
    intro q data _ hfile
    cases q <;> cases hfile
  obtain ⟨t, ht⟩ := hmade
  have htree : emptyProject = t := by
    unfold emptyProject
    rw [ht]
  rw [htree, FileTree.get_of_createDirAll ht]
  cases q <;> rfl

theorem reached_emptyProject : Reached projectStore emptyProject := by
  apply Reached.start
  · rw [get_emptyProject, if_pos prefix_rfl]
  · intro name
    rw [get_emptyProject, if_neg]
    intro hpre
    have hlen := hpre.length_le
    simp at hlen

theorem typed_namedSession (id : String) : (namedSession id).Typed where
  version := show 1 < 2 ^ 32 by decide
  messages := nofun
  compaction := nofun

theorem fits_namedSession (id : String) : (namedSession id).Fits where
  version := show 1 < 2 ^ 32 by decide
  createdAtMs := show 5 < 2 ^ 63 by decide
  updatedAtMs := show 5 < 2 ^ 63 by decide
  messages := nofun
  compaction := nofun
  promptHistory := nofun

theorem reached_projectWith (hid : PathSafe id) :
    Reached projectStore (projectWith id) :=
  reached_emptyProject.save hid (typed_namedSession id) _

theorem savedAs_projectWith (hid : PathSafe id) :
    ∃ snapshot : List Char,
      SavedAs projectStore emptyProject (projectWith id) id ⟨snapshot.map .char, 3⟩ ∧
      SessionFile.Loads ⟨snapshot.map .char, 3⟩ (namedSession id).clamped.persisted := by
  obtain ⟨snapshot, hsnap, -⟩ := Session.fromJsonl_snapshot (fits_namedSession id)
  have hkept := kept_of_reached reached_emptyProject
  refine ⟨snapshot, ?_, loads_snapshot (typed_namedSession id) hsnap 3⟩
  unfold projectWith
  rw [createHandle_location hid]
  exact savedAs_saveToPath hkept.dir hkept.files hid.nonempty hsnap ⟨1, ⟨2, 0⟩, 3⟩

theorem listed_projectWith (hid : PathSafe id) (stamps : LoadStamps) :
    ∃ summaries summary session,
      projectStore.listSessions [] (projectWith id) stamps = .ok summaries ∧
      summary ∈ summaries ∧ loadFile [] (projectWith id) stamps summary.path = .ok session ∧
      summary.id = id ∧ summary.path = .ofLocation (projectStore.ownFile id) := by
  obtain ⟨snapshot, hsaved, hloads⟩ := savedAs_projectWith hid
  have hdir := (kept_of_reached (reached_projectWith hid)).dir
  have haccepts := accepts_of_unbound [] hdir hsaved.own hloads rfl (by decide)
  obtain ⟨summaries, summary, hlist, hmem, hsame, hpath⟩ :=
    listed_of_loads stamps hid.nonempty hdir hsaved.own hloads haccepts
  have hload := loadFile_of_loads [] (steps_ownFile id) hsaved.own hloads stamps
  rw [← hpath] at hload
  exact ⟨summaries, summary, _, hlist, hmem, hload, hsame, hpath⟩

/-- An id with a dot is listed and not found. -/
theorem dotted_id_not_opened : ∃ summaries summary session,
    Reached projectStore (projectWith "v1.2") ∧
    projectStore.listSessions [] (projectWith "v1.2") (fun _ => (0, ⟨0, 0⟩)) = .ok summaries ∧
    summary ∈ summaries ∧
    loadFile [] (projectWith "v1.2") (fun _ => (0, ⟨0, 0⟩)) summary.path = .ok session ∧
    summary.id = "v1.2" ∧
    ¬Opens projectStore [] (projectWith "v1.2") (fun _ => (0, ⟨0, 0⟩)) (fun _ => (0, ⟨0, 0⟩))
      summary.id := by
  have hid : PathSafe "v1.2" := ⟨by decide, by decide⟩
  obtain ⟨summaries, summary, session, hlist, hmem, hload, hsame, hpath⟩ :=
    listed_projectWith hid fun _ => (0, ⟨0, 0⟩)
  refine ⟨summaries, summary, session, reached_projectWith hid, hlist, hmem, hload, hsame, ?_⟩
  rw [hsame, opens_iff]
  rintro ⟨hresolve, -⟩
  obtain ⟨snapshot, hsaved, -⟩ := savedAs_projectWith hid
  have hexists : (projectWith "v1.2").pathExists (projectStore.ownFile "v1.2") = true :=
    FileTree.pathExists_of_get hsaved.own
  have hlooks := ((resolveReference_plain hid hexists (by decide)).mp hresolve).2
  revert hlooks
  decide

/-- A generated id opens its session. -/
theorem generated_id_opened : ∃ summaries summary,
    projectStore.listSessions [] (projectWith "session-5-0") (fun _ => (0, ⟨0, 0⟩)) =
      .ok summaries ∧ summary ∈ summaries ∧ summary.id = "session-5-0" ∧
    Opens projectStore [] (projectWith "session-5-0") (fun _ => (0, ⟨0, 0⟩))
      (fun _ => (0, ⟨0, 0⟩)) summary.id := by
  have hid : PathSafe "session-5-0" := ⟨by decide, by decide⟩
  obtain ⟨summaries, summary, session, hlist, hmem, hload, hsame, hpath⟩ :=
    listed_projectWith hid fun _ => (0, ⟨0, 0⟩)
  refine ⟨summaries, summary, hlist, hmem, hsame,
    (opens_iff_openable (reached_projectWith hid) hlist hmem hload).mpr ?_⟩
  have hplain : isSessionReferenceAlias "session-5-0" = false := by decide
  obtain ⟨snapshot, hsaved, -⟩ := savedAs_projectWith hid
  constructor
  · exact .inl ⟨_, hpath⟩
  · intro hne
    rw [hsame] at hne
    exact absurd hpath hne
  · intro halias
    rw [hsame, hplain] at halias
    cases halias
  · rw [hsame]
    intro _
    refine ⟨?_, by decide⟩
    have hcand : projectStore.candidate "session-5-0" = .ofLocation ["ws", "session-5-0"] := by
      decide
    have hmissing : (projectWith "session-5-0").get ["ws", "session-5-0"] = none := by
      rw [hsaved.outside, get_emptyProject, if_neg (by decide)]
      intro name heq
      have hlen := congrArg List.length heq
      simp [projectStore] at hlen
    unfold existsPath
    cases hlocate : locate (projectWith "session-5-0") []
        (projectStore.candidate "session-5-0") with
    | error e => rfl
    | ok location =>
      rw [hcand] at hlocate
      have hexists := ((locate_ofLocation_iff (by decide)).mp hlocate).2
      rw [FileTree.pathExists, hmissing] at hexists
      cases hexists

end SessionStore

end DbClinic.Runtime
