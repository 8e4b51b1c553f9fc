import DbClinic.Lib.SortBy
import DbClinic.Runtime.PathBuf
import DbClinic.Runtime.SessionFile

/-!
The store of the sessions of one workspace: handles, references, listings, loading and
forking. The roots of a store are locations from the root of the file tree, and the
working directory of the process is one too. Every load reads the clock and the id counter,
which counts only for a file that leaves out its times or its id.
-/

namespace DbClinic.Runtime

section Paths

variable (t : SessionTree)

/-- Names are followed one by one, and every one but the last must lead to a directory. -/
def follow : (here : Path) → List String → Except IoError Path
  | here, [] => if t.pathExists here then .ok here else .error .notFound
  | here, name :: rest =>
    match t.get here with
    | some .dir =>
      if name = "." then follow here rest
      else if name = ".." then follow here.dropLast rest
      else follow (here ++ [name]) rest
    | some (.file _) => .error .notADirectory
    | none => .error .notFound

variable (cwd : Path)

def locate (p : PathBuf) : Except IoError Path :=
  if p.absolute = false ∧ p.names = [] then .error .notFound
  else follow t (if p.absolute then [] else cwd) p.osNames

/-- `Path::exists`. -/
def existsPath (p : PathBuf) : Bool :=
  match locate t cwd p with
  | .ok _ => true
  | .error _ => false

/-- `canonicalize(path).unwrap_or(path)`. -/
def canonicalizeForCompare (p : PathBuf) : PathBuf :=
  match locate t cwd p with
  | .ok location => .ofLocation location
  | .error _ => p

/-- Paths are equal by their components. -/
def workspaceRootsMatch (left right : PathBuf) : Bool :=
  let left := canonicalizeForCompare t cwd left
  let right := canonicalizeForCompare t cwd right
  left.absolute = right.absolute && left.names = right.names

def pathIsWithinWorkspace (path workspaceRoot : PathBuf) : Bool :=
  (canonicalizeForCompare t cwd path).startsWith (canonicalizeForCompare t cwd workspaceRoot)

end Paths

structure SessionStore where
  sessionsRoot : Path
  workspaceRoot : Path
  named : ∀ name ∈ sessionsRoot, Path.IsName name

structure SessionHandle where
  id : String
  path : PathBuf
  deriving DecidableEq

structure ManagedSessionSummary where
  id : String
  path : PathBuf
  updatedAtMs : Nat
  modifiedEpochMillis : Nat
  messageCount : Nat
  parentSessionId : Option String
  branchName : Option String
  deriving DecidableEq

structure LoadedManagedSession where
  handle : SessionHandle
  session : Session
  deriving DecidableEq

structure ForkedManagedSession where
  parentSessionId : String
  handle : SessionHandle
  session : Session
  branchName : Option String
  deriving DecidableEq

inductive SessionControlError where
  | io (error : IoError)
  | session (error : SessionError)
  | format (message : String)
  | workspaceMismatch (expected actual : PathBuf)
  deriving DecidableEq

/-- What the clock and the counter return while the file at a path is loaded. -/
abbrev LoadStamps := PathBuf → Nat × Stamp

def PRIMARY_SESSION_EXTENSION : String := "jsonl"

def LEGACY_SESSION_EXTENSION : String := "json"

def LATEST_SESSION_REFERENCE : String := "latest"

def SESSION_REFERENCE_ALIASES : List String := [LATEST_SESSION_REFERENCE, "last", "recent"]

/-- `eq_ignore_ascii_case` with one of the aliases. -/
def isSessionReferenceAlias (reference : String) : Bool :=
  SESSION_REFERENCE_ALIASES.any fun word =>
    reference.toList.map Char.toLower = word.toList.map Char.toLower

def isManagedSessionFile (path : PathBuf) : Bool :=
  match path.fileName.bind Path.extension with
  | some extension =>
    extension = PRIMARY_SESSION_EXTENSION || extension = LEGACY_SESSION_EXTENSION
  | none => false

def sessionIdFromPath (path : PathBuf) : Option String :=
  path.fileName.bind fun name =>
    let strip (extension : String) := stripSuffix ("." ++ extension).toList name.toList
    ((strip PRIMARY_SESSION_EXTENSION).or (strip LEGACY_SESSION_EXTENSION)).map String.ofList

/-- The most recently updated first, then the most recently modified, then the greatest id. -/
def managedOrder (left right : ManagedSessionSummary) : Ordering :=
  ((compare right.updatedAtMs left.updatedAtMs).then
    (compare right.modifiedEpochMillis left.modifiedEpochMillis)).then
    (compare right.id left.id)

def sortManagedSessions (sessions : List ManagedSessionSummary) : List ManagedSessionSummary :=
  SortBy.sortBy managedOrder sessions

def fingerprintDir (sessionsRoot : Path) : String := sessionsRoot.getLast?.getD "<unknown>"

def formatMissingSessionReference (reference : String) (sessionsRoot : Path) : String :=
  "session not found: " ++ reference ++ "\nHint: managed sessions live in .claw/sessions/" ++
    fingerprintDir sessionsRoot ++ "/ (workspace-specific partition).\nTry `" ++
    LATEST_SESSION_REFERENCE ++ "` for the most recent session or `/session list` in the REPL."

def formatNoManagedSessions (sessionsRoot : Path) : String :=
  "no managed sessions found in .claw/sessions/" ++ fingerprintDir sessionsRoot ++
    "/\nStart `claw` to create a session, then rerun with `--resume " ++
    LATEST_SESSION_REFERENCE ++ "`.\nNote: claw partitions sessions per workspace " ++
    "fingerprint; sessions from other CWDs are invisible."

def formatLegacySessionMissingWorkspaceRoot (sessionPath workspaceRoot : PathBuf) : String :=
  "legacy session is missing workspace binding: " ++ sessionPath.display ++
    "\nOpen it from its original workspace or re-save it from " ++ workspaceRoot.display ++ "."

def normalizeOptionalString (value : Option String) : Option String :=
  value.bind fun value =>
    let trimmed := trim value.toList
    if trimmed = [] then none else some (String.ofList trimmed)

/-- `Session::fork`. -/
def Session.forkSession (session : Session) (branchName : Option String) (now : Nat)
    (stamp : Stamp) : Session :=
  { session with
    sessionId := generateSessionId stamp
    createdAtMs := now
    updatedAtMs := now
    fork := some ⟨session.sessionId, normalizeOptionalString branchName⟩
    persistencePath := none }

/-- The location of a path from the root; `..` leaves the name before it. -/
def PathBuf.location (p : PathBuf) : Path := Path.walk [] p.names

namespace SessionStore

variable (store : SessionStore)

def createHandle (sessionId : String) : SessionHandle :=
  ⟨sessionId, (PathBuf.ofLocation store.sessionsRoot).join
    (sessionId ++ "." ++ PRIMARY_SESSION_EXTENSION)⟩

/-- The parent of the store's directory, if it has the name that the layout gives it. -/
def legacySessionsRoot : Option Path :=
  if store.sessionsRoot.dropLast.getLast? = some "sessions" then
    some store.sessionsRoot.dropLast
  else none

def forkedSession (session : Session) (branchName : Option String) (now : Nat) (stamp : Stamp) :
    Session :=
  let forked := (session.forkSession branchName now stamp).withWorkspaceRoot
    (PathBuf.ofLocation store.workspaceRoot).display
  forked.withPersistencePath (store.createHandle forked.sessionId).path.location

/-- `fork_session`: the tree after it, and its result. -/
def forkSession (session : Session) (branchName : Option String) (now : Nat) (stamp : Stamp)
    (t : SessionTree) (stamps : SaveStamps) :
    SessionTree × Except SessionControlError ForkedManagedSession :=
  let forked := store.forkedSession session branchName now stamp
  let handle := store.createHandle forked.sessionId
  match forked.saveToPath t handle.path.location stamps with
  | (t', .ok ()) =>
    (t', .ok ⟨session.sessionId, handle, forked, forked.fork.bind SessionFork.branchName⟩)
  | (t', .error e) => (t', .error (.session e))

section Lookups

variable (cwd : Path) (t : SessionTree) (stamps : LoadStamps)

/-- `Session::load_from_path`, for the file that a path leads to. -/
def loadFile (path : PathBuf) : Except SessionError Session :=
  match locate t cwd path with
  | .error e => .error (.io e)
  | .ok location => Session.loadFromPath t location (stamps path).1 (stamps path).2

def validateLoadedSession (sessionPath : PathBuf) (session : Session) :
    Except SessionControlError Unit :=
  let workspaceRoot := PathBuf.ofLocation store.workspaceRoot
  match session.workspaceRoot with
  | none =>
    if pathIsWithinWorkspace t cwd sessionPath workspaceRoot then .ok ()
    else .error (.format (formatLegacySessionMissingWorkspaceRoot sessionPath workspaceRoot))
  | some actual =>
    if workspaceRootsMatch t cwd (.ofText actual) workspaceRoot then .ok ()
    else .error (.workspaceMismatch workspaceRoot (.ofText actual))

def managedFile (directory : Path) (sessionId : String) : Option PathBuf :=
  ([PRIMARY_SESSION_EXTENSION, LEGACY_SESSION_EXTENSION].map fun extension =>
    (PathBuf.ofLocation directory).join (sessionId ++ "." ++ extension)).find? (existsPath t cwd)

def resolveManagedPath (sessionId : String) : Except SessionControlError PathBuf :=
  match managedFile cwd t store.sessionsRoot sessionId with
  | some path => .ok path
  | none =>
    match store.legacySessionsRoot.bind fun root => managedFile cwd t root sessionId with
    | none => .error (.format (formatMissingSessionReference sessionId store.sessionsRoot))
    | some path =>
      match loadFile cwd t stamps path with
      | .error e => .error (.session e)
      | .ok session => (store.validateLoadedSession cwd t path session).map fun _ => path

/-- The entry of a listing for one name in a directory. A session of another workspace has
none, a file that is no session has one under its own name. -/
def summaryOf (directory : Path) (name : String) : Option ManagedSessionSummary :=
  let path := PathBuf.ofLocation (directory ++ [name])
  let modified := ((t.fileAt (directory ++ [name])).map SessionFile.modified).getD 0
  if isManagedSessionFile path then
    match loadFile cwd t stamps path with
    | .ok session =>
      match store.validateLoadedSession cwd t path session with
      | .error _ => none
      | .ok () => some {
          id := session.sessionId
          path
          updatedAtMs := session.updatedAtMs
          modifiedEpochMillis := modified
          messageCount := session.messages.length
          parentSessionId := session.fork.map SessionFork.parentSessionId
          branchName := session.fork.bind SessionFork.branchName }
    | .error _ => some {
        id := (path.fileName.map Path.stem).getD "unknown"
        path
        updatedAtMs := 0
        modifiedEpochMillis := modified
        messageCount := 0
        parentSessionId := none
        branchName := none }
  else none

def collectSessionsFromDir (directory : Path) :
    Except SessionControlError (List ManagedSessionSummary) :=
  match locate t cwd (.ofLocation directory) with
  | .error .notFound => .ok []
  | .error e => .error (.io e)
  | .ok location =>
    match t.get location with
    | some .dir => .ok ((t.readDir location).filterMap (store.summaryOf cwd t stamps directory))
    | _ => .error (.io .notADirectory)

/-- The sessions of the store's directory, then those of the older layout. -/
def collectSessions : Except SessionControlError (List ManagedSessionSummary) := do
  let sessions ← store.collectSessionsFromDir cwd t stamps store.sessionsRoot
  match store.legacySessionsRoot with
  | none => return sessions
  | some root => return sessions ++ (← store.collectSessionsFromDir cwd t stamps root)

def listSessions : Except SessionControlError (List ManagedSessionSummary) :=
  (store.collectSessions cwd t stamps).map sortManagedSessions

def latestSession : Except SessionControlError ManagedSessionSummary :=
  match store.listSessions cwd t stamps with
  | .error e => .error e
  | .ok (latest :: _) => .ok latest
  | .ok [] => .error (.format (formatNoManagedSessions store.sessionsRoot))

def candidate (reference : String) : PathBuf :=
  (PathBuf.ofLocation store.workspaceRoot).join reference

/-- The number of `direct.components()`. -/
def componentCount (direct : PathBuf) : Nat :=
  direct.names.length + if direct.absolute then 1 else 0

def looksLikePath (reference : String) : Bool :=
  let direct := PathBuf.ofText reference
  (direct.fileName.bind Path.extension).isSome || 1 < componentCount direct

def resolveReference (reference : String) : Except SessionControlError SessionHandle :=
  if isSessionReferenceAlias reference then
    (store.latestSession cwd t stamps).map fun latest => ⟨latest.id, latest.path⟩
  else
    let resolved :=
      if existsPath t cwd (store.candidate reference) then .ok (store.candidate reference)
      else if looksLikePath reference then
        .error (.format (formatMissingSessionReference reference store.sessionsRoot))
      else store.resolveManagedPath cwd t stamps reference
    resolved.map fun path => ⟨(sessionIdFromPath path).getD reference, path⟩

/-- `load_session`. The clock is read anew after the reference is resolved. -/
def loadSession (loading : LoadStamps) (reference : String) :
    Except SessionControlError LoadedManagedSession := do
  let handle ← store.resolveReference cwd t stamps reference
  match loadFile cwd t loading handle.path with
  | .error e => .error (.session e)
  | .ok session =>
    let _ ← store.validateLoadedSession cwd t handle.path session
    return ⟨⟨session.sessionId, handle.path⟩, session⟩

end Lookups

end SessionStore

end DbClinic.Runtime
