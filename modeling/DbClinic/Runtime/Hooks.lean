import DbClinic.Runtime.Conversation
import DbClinic.Runtime.Json

/-!
The chain of hook commands around a tool call. What a command does when it is
run is an input, its output as text; the JSON library is a parameter. The events
for a progress reporter are left out.
-/

namespace DbClinic.Runtime

inductive HookEvent where
  | preToolUse
  | postToolUse
  | postToolUseFailure
  deriving DecidableEq

def HookEvent.asStr : HookEvent → String
  | preToolUse => "PreToolUse"
  | postToolUse => "PostToolUse"
  | postToolUseFailure => "PostToolUseFailure"

/-- What the process of a command did; no exit code means a signal. -/
inductive CommandExecution where
  | finished (code : Option Int) (stdout stderr : String)
  | cancelled
  | notStarted (error : String)

structure ParsedHookOutput where
  messages : List String
  deny : Bool
  permissionOverride : Option PermissionOverride
  permissionReason : Option String
  updatedInput : Option String

namespace ParsedHookOutput

/-- `ParsedHookOutput::default`, with messages. -/
def ofMessages (messages : List String) : ParsedHookOutput := ⟨messages, false, none, none, none⟩

def withFallbackMessage (parsed : ParsedHookOutput) (fallback : String) : ParsedHookOutput :=
  if parsed.messages = [] then { parsed with messages := [fallback] } else parsed

def primaryMessage (parsed : ParsedHookOutput) : Option String := parsed.messages.head?

end ParsedHookOutput

inductive HookCommandOutcome where
  | allow (parsed : ParsedHookOutput)
  | deny (parsed : ParsedHookOutput)
  | failed (parsed : ParsedHookOutput)
  | cancelled (message : String)

/-- The library's parser and printer of JSON. -/
structure SerdeJson where
  fromStr : String → Except String Serde.Value
  toText : Serde.Value → Option String

def hookPreviewCharLimit : Nat := 160

def previewChar (c : Char) : List Char :=
  if c = '\n' then ['\\', 'n']
  else if c = '\r' then ['\\', 'r']
  else if c = '\t' then ['\\', 't']
  else if JsonValue.isControl c then ['\\', 'u', '\x7b'] ++ Nat.toDigits 16 c.toNat ++ ['\x7d']
  else [c]

def boundedHookPreview (value : String) : Option String :=
  let trimmed := trim value.toList
  if trimmed = [] then none
  else
    some (String.ofList ((trimmed.take hookPreviewCharLimit).flatMap previewChar ++
      if hookPreviewCharLimit < trimmed.length then ['…'] else []))

def formatInvalidHookOutput (event : HookEvent) (toolName command detail stdout stderr : String) :
    String :=
  let preview (text : String) := (boundedHookPreview text).getD "<empty>"
  "hook_invalid_json: phase=" ++ event.asStr ++ " tool=" ++ toolName ++ " command=" ++
    preview command ++ " detail=" ++ detail ++ " stdout_preview=" ++ preview stdout ++
    " stderr_preview=" ++ preview stderr

def looksLikeJsonAttempt (value : String) : Bool :=
  match (value.toList.dropWhile isWhitespace).head? with
  | some c => c = '\x7b' || c = '['
  | none => false

def formatHookFailure (command : String) (code : Int) (stdout : Option String) (stderr : String) :
    String :=
  let message := "Hook \x60" ++ command ++ "\x60 exited with status " ++ toString code
  match stdout.filter (· ≠ "") with
  | some stdout => message ++ ": " ++ stdout
  | none => if stderr ≠ "" then message ++ ": " ++ stderr else message

section Chain

variable (json : SerdeJson)

def parseSpecific (parsed : ParsedHookOutput) (specific : List (String × Serde.Value)) :
    ParsedHookOutput :=
  let parsed :=
    match getEntry specific "additionalContext" with
    | some (.string context) => { parsed with messages := parsed.messages ++ [context] }
    | _ => parsed
  let parsed :=
    match (getEntry specific "permissionDecision").bind Serde.Value.asStr with
    | some decision =>
      { parsed with
        permissionOverride :=
          match decision with
          | "allow" => some .allow
          | "deny" => some .deny
          | "ask" => some .ask
          | _ => none }
    | none => parsed
  let parsed :=
    match (getEntry specific "permissionDecisionReason").bind Serde.Value.asStr with
    | some reason => { parsed with permissionReason := some reason }
    | none => parsed
  match getEntry specific "updatedInput" with
  | some updatedInput => { parsed with updatedInput := json.toText updatedInput }
  | none => parsed

def parseHookObject (root : List (String × Serde.Value)) (stdout : String) : ParsedHookOutput :=
  let text (key : String) := ((getEntry root key).bind Serde.Value.asStr).toList
  let deny :=
    (getEntry root "continue").bind Serde.Value.asBool = some false ||
      (getEntry root "decision").bind Serde.Value.asStr = some "block"
  let parsed : ParsedHookOutput :=
    ⟨text "systemMessage" ++ text "reason", deny, none, none, none⟩
  let parsed :=
    match getEntry root "hookSpecificOutput" with
    | some (.object specific) => parseSpecific json parsed specific
    | _ => parsed
  if parsed.messages = [] then { parsed with messages := [stdout] } else parsed

def parseHookOutput (event : HookEvent) (toolName command stdout stderr : String) :
    ParsedHookOutput :=
  if stdout = "" then .ofMessages []
  else
    match json.fromStr stdout with
    | .ok (.object root) => parseHookObject json root stdout
    | .ok value =>
      .ofMessages [formatInvalidHookOutput event toolName command
        ("expected top-level JSON object, got " ++ value.typeName) stdout stderr]
    | .error error =>
      if looksLikeJsonAttempt stdout then
        .ofMessages [formatInvalidHookOutput event toolName command error stdout stderr]
      else .ofMessages [stdout]

def runCommand (event : HookEvent) (toolName command : String) :
    CommandExecution → HookCommandOutcome
  | .finished code stdout stderr =>
    let stdout := String.ofList (trim stdout.toList)
    let stderr := String.ofList (trim stderr.toList)
    let parsed := parseHookOutput json event toolName command stdout stderr
    match code with
    | some 0 => if parsed.deny then .deny parsed else .allow parsed
    | some 2 =>
      .deny (parsed.withFallbackMessage
        (event.asStr ++ " hook denied tool \x60" ++ toolName ++ "\x60"))
    | some code =>
      .failed (parsed.withFallbackMessage
        (formatHookFailure command code parsed.primaryMessage stderr))
    | none =>
      .failed (parsed.withFallbackMessage (event.asStr ++ " hook \x60" ++ command ++
        "\x60 terminated by signal while handling \x60" ++ toolName ++ "\x60"))
  | .cancelled =>
    .cancelled (event.asStr ++ " hook \x60" ++ command ++ "\x60 cancelled while handling \x60" ++
      toolName ++ "\x60")
  | .notStarted error =>
    .failed (.ofMessages [event.asStr ++ " hook \x60" ++ command ++
      "\x60 failed to start for \x60" ++ toolName ++ "\x60: " ++ error])

def mergeParsedHookOutput (target : HookRunResult) (parsed : ParsedHookOutput) : HookRunResult :=
  { target with
    messages := target.messages ++ parsed.messages
    permissionOverride := parsed.permissionOverride.or target.permissionOverride
    permissionReason := parsed.permissionReason.or target.permissionReason
    updatedInput := parsed.updatedInput.or target.updatedInput }

/-- The loop of `run_commands`, over the outcomes of the commands. -/
def runOutcomes (result : HookRunResult) : List HookCommandOutcome → HookRunResult
  | [] => result
  | .allow parsed :: rest => runOutcomes (mergeParsedHookOutput result parsed) rest
  | .deny parsed :: _ => { mergeParsedHookOutput result parsed with denied := true }
  | .failed parsed :: _ => { mergeParsedHookOutput result parsed with failed := true }
  | .cancelled message :: _ =>
    { result with cancelled := true, messages := result.messages ++ [message] }

def outcomes (event : HookEvent) (toolName : String) (commands : List (String × CommandExecution)) :
    List HookCommandOutcome :=
  commands.map fun command => runCommand json event toolName command.1 command.2

def runCommands (event : HookEvent) (commands : List (String × CommandExecution))
    (toolName : String) (aborted : Bool) : HookRunResult :=
  if commands = [] then .allow []
  else if aborted then
    { HookRunResult.allow [event.asStr ++ " hook cancelled before execution"] with
      cancelled := true }
  else runOutcomes (.allow []) (outcomes json event toolName commands)

end Chain

end DbClinic.Runtime
