import DbClinic.Runtime.FileOps
import DbClinic.Runtime.Permissions

/-!
The permission that a call of a shell or file tool needs, classified from its
input: the text of the command, and the paths in it against the working
directory. The file system is a tree with links; the lower-casing of Unicode is
a parameter.
-/

namespace DbClinic.Tools

open DbClinic.Runtime DbClinic.Runtime.FileOps LinkTree

/-- What the classifiers ask the process for. An unset `HOME` is empty. -/
structure Process where
  files : Files
  cwd : Option Location
  home : List Char
  toLowercase : List Char → List Char

namespace Process

variable (process : Process)

def canonicalize (p : PathBuf) : Except FileOps.IoError PathBuf :=
  FileOps.canonicalize process.files process.cwd p

/-- `path.canonicalize().unwrap_or(path)`. -/
def canonicalizeOr (p : PathBuf) : PathBuf :=
  match process.canonicalize p with
  | .ok canonical => canonical
  | .error _ => p

/-- `Path::exists`. -/
def pathExists (p : PathBuf) : Bool :=
  match process.canonicalize p with
  | .ok _ => true
  | .error _ => false

/-- The working directory, resolved if it can be. -/
def currentDir : Option PathBuf := process.cwd.map fun cwd => process.canonicalizeOr (.ofLocation cwd)

end Process

/-- The characters that are dropped around a path in a command. -/
def isPathQuote (c : Char) : Bool :=
  c = '"' || c = '\'' || c = '\x60' || c = ',' || c = ';' || c = ')' || c = '(' || c = '[' ||
    c = ']' || c = '\x7b' || c = '\x7d'

def looksLikeWindowsAbsolutePath (token : List Char) : Bool :=
  (match token with
    | drive :: ':' :: separator :: _ => drive.isAlpha && (separator = '/' || separator = '\\')
    | _ => false) ||
    ['\\', '\\'].isPrefixOf token

def readOnlyCommands : List String :=
  ["cat", "head", "tail", "less", "more", "ls", "ll", "dir", "find", "test", "[", "[[", "grep",
    "rg", "awk", "sed", "file", "stat", "readlink", "wc", "sort", "uniq", "cut", "tr", "pwd",
    "echo", "printf"]

/-- The first word of a command, before a pipe, a separator or a redirection, and
without the directories in front of it. -/
def commandName (command : List Char) : List Char :=
  let before (stop : Char) (cs : List Char) := trim (cs.takeWhile (· ≠ stop))
  let base := before '<' (before '>' (before ';' (before '|' ((splitWhitespace command).headD []))))
  (base.splitOn '/').getLastD base

def isDangerousToken (process : Process) (word : List Char) : Bool :=
  let token := trimMatches isPathQuote word
  let text := String.ofList token
  if ['-'].isPrefixOf token then false
  else if token.contains '$' then true
  else if looksLikeWindowsAbsolutePath token then true
  else
    let outsideAbsolute :=
      (['/'].isPrefixOf token || ['~', '/'].isPrefixOf token) &&
        process.currentDir.any fun cwd =>
          let expanded := token.flatMap fun c => if c = '~' then process.home else [c]
          !(process.canonicalizeOr (.ofText (String.ofList expanded))).startsWith cwd
    let climbs :=
      containsText ['.', '.', '/', '.', '.'] token ||
        (['.', '.', '/'].isPrefixOf token && !List.isPrefixOf ['.', '/'] token)
    let leadsOut :=
      process.currentDir.any fun cwd =>
        (['.'].isPrefixOf token || token.contains '/' || process.pathExists (.ofText text)) &&
          (match process.canonicalize (cwd.join text) with
            | .ok canonical => !canonical.startsWith cwd
            | .error _ => false)
    outsideAbsolute || climbs || leadsOut

def hasDangerousPaths (process : Process) (command : List Char) : Bool :=
  (splitWhitespace command).any (isDangerousToken process)

def classifyBashPermission (process : Process) (command : String) : PermissionMode :=
  if readOnlyCommands.contains (String.ofList (commandName command.toList)) = false then
    .dangerFullAccess
  else if hasDangerousPaths process command.toList then .dangerFullAccess
  else .workspaceWrite

def pathWithinCurrentWorkspace (process : Process) (path : String) (allowMissing : Bool) : Bool :=
  let trimmed := trimMatches isPathQuote path.toList
  if looksLikeWindowsAbsolutePath trimmed then false
  else
    match process.currentDir with
    | none => false
    | some cwd =>
      let absolute := cwd.join (String.ofList trimmed)
      let resolved :=
        if allowMissing then
          match absolute.parent with
          | none => absolute
          | some parent =>
            match process.canonicalize parent with
            | .error _ => absolute
            | .ok canonicalParent =>
              match absolute.fileName with
              | some name => canonicalParent.push name
              | none => canonicalParent
        else process.canonicalizeOr absolute
      resolved.startsWith cwd

def classifyFilePathPermission (process : Process) (path : String) (allowMissing : Bool) :
    PermissionMode :=
  if pathWithinCurrentWorkspace process path allowMissing then .workspaceWrite
  else .dangerFullAccess

def classifyGlobPermission (process : Process) (path : Option String) (pattern : String) :
    PermissionMode :=
  let baseAllowed := path.all fun path => pathWithinCurrentWorkspace process path false
  let patternAllowed := pathWithinCurrentWorkspace process pattern true
  if baseAllowed && patternAllowed then .workspaceWrite else .dangerFullAccess

def classifyGrepPermission (process : Process) (path : Option String) : PermissionMode :=
  if path.all fun path => pathWithinCurrentWorkspace process path false then .workspaceWrite
  else .dangerFullAccess

/-! PowerShell commands. The position of `-path` is found in the lower-cased
command and used as a byte offset of the command itself, so the slice can lie
off a character and the call panics. -/

def readOnlyCmdlets : List String :=
  ["Get-Content", "Get-ChildItem", "Test-Path", "Get-Item", "Get-ItemProperty", "Get-FileHash",
    "Select-String"]

/-- A slice from a byte offset, if the offset is a character's. -/
def sliceFrom : List Char → Nat → Option (List Char)
  | cs, 0 => some cs
  | [], _ + 1 => none
  | c :: cs, n + 1 => if c.utf8Size ≤ n + 1 then sliceFrom cs (n + 1 - c.utf8Size) else none

def trimQuotes (cs : List Char) : List Char := trimMatches (· = '\'') (trimMatches (· = '"') cs)

/-- The path argument of a command; the outer `none` is the panic. -/
def extractPowershellPath (process : Process) (command : List Char) : Option (Option (List Char)) :=
  match splitOnce ['-', 'p', 'a', 't', 'h'] (process.toLowercase command) with
  | some (before, _) =>
    (sliceFrom command ((before.map Char.utf8Size).sum + 5)).map fun afterPath =>
      (splitWhitespace afterPath).head?.map trimQuotes
  | none =>
    some <|
      match splitWhitespace command with
      | _ :: first :: _ =>
        if first.contains '\\' || first.contains '/' || first.contains '.' then
          some (trimQuotes first)
        else none
      | _ => none

def isWithinWorkspace (process : Process) (path : List Char) : Bool :=
  let trimmed := trimMatches isPathQuote path
  if looksLikeWindowsAbsolutePath trimmed then false
  else
    let path := PathBuf.ofText (String.ofList trimmed)
    match path.absolute, process.currentDir with
    | true, some cwd => (process.canonicalizeOr path).startsWith cwd
    | true, none => false
    | false, _ => !(path.names.head? = some "\\") && !(path.names.head? = some "..")

/-- `none` is the panic. -/
def classifyPowershellPermission (process : Process) (command : String) : Option PermissionMode :=
  let lowered := process.toLowercase (trim command.toList)
  let isReadOnly := readOnlyCmdlets.any fun cmd => (process.toLowercase cmd.toList).isPrefixOf lowered
  if isReadOnly = false then some .dangerFullAccess
  else
    (extractPowershellPath process command.toList).map fun path =>
      match path with
      | some path => if isWithinWorkspace process path then .workspaceWrite else .dangerFullAccess
      | none => .dangerFullAccess

end DbClinic.Tools
