import DbClinic.Lib.FileTree
import DbClinic.Runtime.BashValidation

/-!
What the worker registry reads off a screen: prompts of the tool and trust
gates, the cues that a worker is ready or running, and the signs that a prompt
landed in the wrong place. A text is a list of characters; lowering is that of
ASCII letters and keeps every position. The resolution of a path by the file
system is a parameter, with the path itself in the place of a failed one.
-/

namespace DbClinic.Runtime.WorkerBoot

/-- `str::to_ascii_lowercase`. -/
def toAsciiLowercase (cs : List Char) : List Char := cs.map Char.toLower

def containsAny (needles : List String) (cs : List Char) : Bool :=
  needles.any fun needle => containsText needle.toList cs

/-- `str::find` on a pattern: the position of its first occurrence. -/
def findText (pattern cs : List Char) : Option Nat :=
  (splitOnce pattern cs).map fun parts => parts.1.length

/-- `str::trim_end_matches` on a pattern: its copies at the end are dropped. -/
def trimEndMatches (pattern : List Char) : (fuel : Nat) → List Char → List Char
  | 0, cs => cs
  | fuel + 1, cs =>
    match stripSuffix pattern cs with
    | none => cs
    | some rest => trimEndMatches pattern fuel rest

def nonEmpty (cs : List Char) : Option (List Char) := if cs = [] then none else some cs

inductive WorkerPromptTarget where
  | shell
  | wrongTarget
  | wrongTask
  | unknown
  deriving DecidableEq

inductive ToolPermissionAllowScope where
  | sessionOnly
  | sessionOrAlways
  | unknown
  deriving DecidableEq

structure WorkerTaskReceipt where
  repo : String
  taskKind : String
  sourceSurface : String
  expectedArtifacts : List String
  objectivePreview : String
  deriving DecidableEq

structure PromptDeliveryObservation where
  target : WorkerPromptTarget
  observedCwd : Option String
  observedPromptPreview : Option String
  deriving DecidableEq

structure ToolPermissionPromptObservation where
  serverName : Option String
  toolName : Option String
  allowScope : ToolPermissionAllowScope
  promptPreview : String
  deriving DecidableEq

def ToolPermissionPromptObservation.message (observation : ToolPermissionPromptObservation) :
    String :=
  match observation.serverName, observation.toolName with
  | some server, some tool =>
    "worker boot blocked on tool permission prompt for " ++ server ++ "." ++ tool
  | some server, none => "worker boot blocked on tool permission prompt for " ++ server
  | none, some tool => "worker boot blocked on tool permission prompt for " ++ tool
  | none, none => "worker boot blocked on tool permission prompt"

def detectToolPermissionAllowScope (lowered : List Char) : ToolPermissionAllowScope :=
  if containsAny ["always allow", "allow always", "allow this tool always",
      "allow for all sessions"] lowered then .sessionOrAlways
  else if containsAny ["allow once", "allow for this session", "allow this session",
      "yes, allow"] lowered then .sessionOnly
  else .unknown

def extractQuotedValue (text : List Char) : Option (List Char) :=
  (splitOnce ['"'] text).bind fun opening =>
    (splitOnce ['"'] opening.2).map fun closing => closing.1

def extractBetween (text start stop : List Char) : Option (List Char) :=
  (splitOnce start text).bind fun opening =>
    (splitOnce stop opening.2).bind fun closing => nonEmpty (trim closing.1)

def isTokenMark (c : Char) : Bool := ['?', ':', '"', '\''].contains c

def extractAfter (text start : List Char) : Option (List Char) :=
  (findText start (toAsciiLowercase text)).bind fun position =>
    (splitWhitespace (text.drop (position + start.length))).head?.bind fun value =>
      nonEmpty (trimMatches isTokenMark value)

def normalizeToolToken (token : List Char) : List Char := trimMatches isTokenMark token

def extractServerFromQualifiedTool (tool : List Char) : Option (List Char) :=
  (stripPrefix "mcp__".toList tool).bind fun rest =>
    (splitOnce "__".toList rest).bind fun parts => nonEmpty parts.1

def promptPreview (prompt : List Char) : String :=
  let trimmed := trim prompt
  if trimmed.length ≤ 48 then String.ofList trimmed
  else String.ofList (trimEnd (trimmed.take 48)) ++ "…"

def isToolPermissionLine (line : List Char) : Bool :=
  let lowered := toAsciiLowercase line
  containsText "allow".toList lowered && containsText "tool".toList lowered &&
    (containsText "run".toList lowered || containsText "server".toList lowered)

def detectToolPermissionPrompt (screenText lowered : List Char) :
    Option ToolPermissionPromptObservation :=
  let looksLikePrompt := containsText "allow the".toList lowered &&
    containsText "server".toList lowered && containsText "tool".toList lowered &&
    containsText "run".toList lowered
  let looksLikeToolGate :=
    containsText "allow tool".toList lowered && containsText "run".toList lowered
  if !looksLikePrompt && !looksLikeToolGate then none
  else
    let promptLine :=
      trim (((textLines screenText).reverse.find? isToolPermissionLine).getD screenText)
    let toolName := (extractQuotedValue promptLine).or
      ((extractAfter promptLine "tool ".toList).map normalizeToolToken)
    let serverName :=
      ((extractBetween promptLine "the ".toList " server".toList).map fun server =>
        trimEndMatches " MCP".toList server.length server).or
        (toolName.bind extractServerFromQualifiedTool)
    some ⟨serverName.map String.ofList, toolName.map String.ofList,
      detectToolPermissionAllowScope lowered, promptPreview promptLine⟩

def detectTrustPrompt (lowered : List Char) : Bool :=
  containsAny ["do you trust the files in this folder", "trust the files in this folder",
    "trust this folder", "allow and continue", "yes, proceed"] lowered

def isShellPrompt (trimmed : List Char) : Bool :=
  ['$', '%', '#'].any fun mark =>
    trimmed.getLast? = some mark || trimmed.head? = some mark

def detectReadyForPrompt (screenText lowered : List Char) : Bool :=
  if containsAny ["ready for input", "ready for your input", "ready for prompt",
      "send a message"] lowered then true
  else
    match (textLines screenText).reverse.find? fun line => trim line ≠ [] with
    | none => false
    | some line =>
      let trimmed := trim line
      if isShellPrompt trimmed then false
      else
        ['>', '›', '❯'].any fun mark =>
          trimmed = [mark] || [mark, ' '].isPrefixOf trimmed ||
            containsText ['│', ' ', mark] trimmed

def detectRunningCue (lowered : List Char) : Bool :=
  containsAny ["thinking", "working", "running tests", "inspecting", "analyzing"] lowered

def isShellPromptToken (token : List Char) : Bool :=
  ['$', '%', '#', '>', '›', '❯'].any fun mark => token = [mark]

def looksLikeCwdLabel (candidate : List Char) : Bool :=
  ['/', '~', '.'].any (fun mark => candidate.head? = some mark) || candidate.contains '/'

def detectObservedShellCwd (screenText : List Char) : Option (List Char) :=
  (textLines screenText).findSome? fun line =>
    let tokens := splitWhitespace line
    match tokens.findIdx? isShellPromptToken with
    | none => none
    | some 0 => none
    | some (index + 1) => (tokens[index]?).filter looksLikeCwdLabel

def detectPromptEcho (screenText : List Char) : Option (List Char) :=
  (textLines screenText).findSome? fun line =>
    (stripPrefix ['›'] (trimStart line)).bind fun value => nonEmpty (trim value)

def taskReceiptVisible (lowered : List Char) (receipt : WorkerTaskReceipt) : Bool :=
  ([receipt.repo, receipt.taskKind, receipt.sourceSurface, receipt.objectivePreview] ++
    receipt.expectedArtifacts).all fun token =>
      containsText (toAsciiLowercase token.toList) lowered

/-- `Path::file_name`: the last component, if it names an entry. -/
def fileName (path : String) : Option String :=
  match (Path.components path).getLast? with
  | some ".." => none
  | name => name

section Resolution

variable (canonicalize : String → Option String)

def normalizePath (path : String) : String := (canonicalize path).getD path

/-- The components of a path, its root and a leading `.` among them. -/
def pathComponents (path : String) : List String :=
  if path.toList.head? = some '/' then "/" :: Path.components path
  else if (path.toList.takeWhile (· ≠ '/')) = ['.'] then "." :: Path.components path
  else Path.components path

/-- `Path::starts_with` compares whole components. -/
def pathMatchesAllowlist (cwd trustedRoot : String) : Bool :=
  (pathComponents (normalizePath canonicalize trustedRoot)).isPrefixOf
    (pathComponents (normalizePath canonicalize cwd))

def cwdMatchesObservedTarget (expectedCwd : String) (observedCwd : List Char) : Bool :=
  let expected := normalizePath canonicalize expectedCwd
  let expectedBase := (fileName expected).getD expected
  let observedBase := (fileName (String.ofList observedCwd)).getD
    (String.ofList (trimMatches (· = ':') observedCwd))
  observedCwd.isSuffixOf expected.toList || expected.toList.isSuffixOf observedCwd ||
    expectedBase = observedBase

def detectPromptMisdelivery (screenText lowered : List Char) (prompt : Option String)
    (expectedCwd : String) (expectedReceipt : Option WorkerTaskReceipt) :
    Option PromptDeliveryObservation :=
  match prompt with
  | none => none
  | some prompt =>
    let promptSnippet :=
      match (textLines prompt.toList).find? fun line => trim line ≠ [] with
      | none => []
      | some line => toAsciiLowercase (trim line)
    if promptSnippet = [] then none
    else
      let promptVisible := containsText promptSnippet lowered
      let echo := detectPromptEcho screenText
      let preview := echo.map String.ofList
      let mismatchedPromptVisible :=
        echo.any fun text => !containsText promptSnippet (toAsciiLowercase text)
      let wrongTask := expectedReceipt.any fun receipt =>
        (promptVisible || mismatchedPromptVisible) && !taskReceiptVisible lowered receipt
      if wrongTask then
        some ⟨.wrongTask, (detectObservedShellCwd screenText).map String.ofList, preview⟩
      else
        match (detectObservedShellCwd screenText).filter fun observed =>
            promptVisible && !cwdMatchesObservedTarget canonicalize expectedCwd observed with
        | some observed => some ⟨.wrongTarget, some (String.ofList observed), preview⟩
        | none =>
          let shellError := containsAny ["command not found",
            "syntax error near unexpected token", "parse error near",
            "no such file or directory", "unknown command"] lowered
          if shellError && promptVisible then some ⟨.shell, none, preview⟩ else none

end Resolution

def promptMisdeliveryDetail (observation : PromptDeliveryObservation) : String :=
  match observation.target with
  | .shell => "shell misdelivery detected"
  | .wrongTarget => "prompt landed in wrong target"
  | .wrongTask => "prompt receipt mismatched expected task context"
  | .unknown => "prompt delivery failure detected"

end DbClinic.Runtime.WorkerBoot
