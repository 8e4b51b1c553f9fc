import DbClinic.Runtime.Compaction
import DbClinic.Runtime.Permissions

/-!
One turn of a conversation: the loop over the provider's answers, the tools they
use with their hooks and permissions, and the compaction at its end. What lies
outside the runtime is a state with an answer for each call that reads it. The
turn reports, next to its result, the tools it considered and the calls it made
of the tool executor.
-/

namespace DbClinic.Runtime

structure PromptCacheEvent where
  unexpected : Bool
  reason : String
  previousCacheReadInputTokens : Nat
  currentCacheReadInputTokens : Nat
  tokenDrop : Nat
  deriving DecidableEq

inductive AssistantEvent where
  | thinking (thinking : String) (signature : Option String)
  | textDelta (delta : String)
  | toolUse (id name input : String)
  | usage (value : TokenUsage)
  | promptCache (event : PromptCacheEvent)
  | messageStop
  deriving DecidableEq

structure ApiRequest where
  systemPrompt : List String
  messages : List ConversationMessage
  deriving DecidableEq

structure ApiFailure where
  kind : String
  retryable : Bool
  provider : Option String
  status : Option Nat
  requestId : Option String
  message : String
  deriving DecidableEq

inductive RuntimeError where
  | apiFailure (failure : ApiFailure)
  | toolFailure (tool message : String)
  | sessionState (message : String)
  | maxIterations
  | cancelled
  | streamInvalid (message : String)
  | internal (source message : String)
  | other (message : String)
  deriving DecidableEq

structure HookRunResult where
  denied : Bool
  failed : Bool
  cancelled : Bool
  messages : List String
  permissionOverride : Option PermissionOverride
  permissionReason : Option String
  updatedInput : Option String
  deriving DecidableEq

/-- `HookRunResult::allow`. -/
def HookRunResult.allow (messages : List String) : HookRunResult :=
  ⟨false, false, false, messages, none, none, none⟩

/-- A tool-use block: what the loop takes out of the assistant message. -/
structure ToolUse where
  id : String
  name : String
  input : String
  deriving DecidableEq

/-- The answers of what lies outside the runtime: the provider, the tool
executor, the hooks, the cancel signals as a loop head reads them, the prompter,
the clock, the session's file, and the JSON parser of `serde_json`. -/
structure Outside (E : Type) where
  stream : E → ApiRequest → Except RuntimeError (List AssistantEvent) × E
  execute : E → (toolName input : String) → Except String String × E
  preToolUse : E → (toolName input : String) → HookRunResult × E
  postToolUse : E → (toolName input output : String) → (isError : Bool) → HookRunResult × E
  postToolUseFailure : E → (toolName input output : String) → HookRunResult × E
  cancelRequested : E → Bool × E
  decide : E → PermissionRequest → PermissionPromptDecision × E
  clock : E → Nat × E
  persist : E → Session → ConversationMessage → Except String Unit × E
  fromStr : String → Option Value

structure UsageTracker where
  latestTurn : TokenUsage
  cumulative : TokenUsage
  turns : Nat
  deriving DecidableEq

/-- The sums are 32-bit integers. -/
def addTokens (a b : Nat) : Nat := (a + b) % 2 ^ 32

namespace UsageTracker

def new : UsageTracker := ⟨⟨0, 0, 0, 0⟩, ⟨0, 0, 0, 0⟩, 0⟩

def record (tracker : UsageTracker) (usage : TokenUsage) : UsageTracker where
  latestTurn := usage
  cumulative := {
    inputTokens := addTokens tracker.cumulative.inputTokens usage.inputTokens
    outputTokens := addTokens tracker.cumulative.outputTokens usage.outputTokens
    cacheCreationInputTokens :=
      addTokens tracker.cumulative.cacheCreationInputTokens usage.cacheCreationInputTokens
    cacheReadInputTokens :=
      addTokens tracker.cumulative.cacheReadInputTokens usage.cacheReadInputTokens }
  turns := addTokens tracker.turns 1

def fromSession (session : Session) : UsageTracker :=
  session.messages.foldl (fun tracker message =>
    match message.usage with
    | some usage => tracker.record usage
    | none => tracker) new

end UsageTracker

structure ConversationRuntime where
  session : Session
  permissionPolicy : PermissionPolicy
  systemPrompt : List String
  maxIterations : Nat
  usageTracker : UsageTracker
  autoCompactionInputTokensThreshold : Nat

structure TurnSummary where
  assistantMessages : List ConversationMessage
  toolResults : List ConversationMessage
  promptCacheEvents : List PromptCacheEvent
  iterations : Nat
  usage : TokenUsage
  autoCompaction : Option Nat
  deriving DecidableEq

/-- The accumulators of `build_assistant_message`. -/
structure MessageBuilder where
  text : String
  blocks : List ContentBlock
  promptCacheEvents : List PromptCacheEvent
  finished : Bool
  usage : Option TokenUsage

namespace MessageBuilder

def start : MessageBuilder := ⟨"", [], [], false, none⟩

def flushTextBlock (b : MessageBuilder) : MessageBuilder :=
  if b.text = "" then b else { b with text := "", blocks := b.blocks ++ [.text b.text] }

def push (b : MessageBuilder) : AssistantEvent → MessageBuilder
  | .thinking thinking signature =>
    { b.flushTextBlock with blocks := b.flushTextBlock.blocks ++ [.thinking thinking signature] }
  | .textDelta delta => { b with text := b.text ++ delta }
  | .toolUse id name input =>
    { b.flushTextBlock with blocks := b.flushTextBlock.blocks ++ [.toolUse id name input] }
  | .usage value => { b with usage := some value }
  | .promptCache event => { b with promptCacheEvents := b.promptCacheEvents ++ [event] }
  | .messageStop => { b with finished := true }

end MessageBuilder

def buildAssistantMessage (events : List AssistantEvent) :
    Except RuntimeError (ConversationMessage × Option TokenUsage × List PromptCacheEvent) :=
  let b := (events.foldl MessageBuilder.push .start).flushTextBlock
  if b.finished = false then
    .error (.streamInvalid "assistant stream ended without a message stop event")
  else if b.blocks = [] then .error (.streamInvalid "assistant stream produced no content")
  else .ok (⟨.assistant, b.blocks, b.usage⟩, b.usage, b.promptCacheEvents)

def pendingToolUses (message : ConversationMessage) : List ToolUse :=
  message.blocks.filterMap fun block =>
    match block with
    | .toolUse id name input => some ⟨id, name, input⟩
    | _ => none

namespace HookRunResult

def formatHookMessage (result : HookRunResult) (fallback : String) : String :=
  if result.messages = [] then fallback else joinText "\n" result.messages

def stopReason (result : HookRunResult) (toolName : String) : Option String :=
  if result.cancelled then
    some (result.formatHookMessage ("PreToolUse hook cancelled tool \x60" ++ toolName ++ "\x60"))
  else if result.failed then
    some (result.formatHookMessage ("PreToolUse hook failed for tool \x60" ++ toolName ++ "\x60"))
  else if result.denied then
    some (result.formatHookMessage ("PreToolUse hook denied tool \x60" ++ toolName ++ "\x60"))
  else none

def effectiveInput (result : HookRunResult) (input : String) : String :=
  result.updatedInput.getD input

def context (result : HookRunResult) : PermissionContext :=
  ⟨result.permissionOverride, result.permissionReason⟩

def stopped (result : HookRunResult) : Bool := result.denied || result.failed || result.cancelled

end HookRunResult

def mergeHookFeedback (messages : List String) (output : String) (isError : Bool) : String :=
  if messages = [] then output
  else
    let label := if isError then "Hook feedback (error)" else "Hook feedback"
    joinText "\n\n" ((if trim output.toList ≠ [] then [output] else []) ++
      [label ++ ":\n" ++ joinText "\n" messages])

structure ToolRecord (E : Type) where
  block : ToolUse
  hook : HookRunResult
  authorization : Option (Authorization E)
  calls : List (String × String)
  message : ConversationMessage

structure IterationRecord (E : Type) where
  message : ConversationMessage
  records : List (ToolRecord E)

section Turn

variable {E : Type} (o : Outside E)

def ToolRecord.refused (block : ToolUse) (hook : HookRunResult)
    (authorization : Option (Authorization E)) (reason : String) : ToolRecord E where
  block := block
  hook := hook
  authorization := authorization
  calls := []
  message := .toolResult block.id block.name (mergeHookFeedback hook.messages reason true) true

def runTool (policy : PermissionPolicy) (hasPrompter : Bool) (block : ToolUse) (e : E) :
    ToolRecord E × E :=
  let (hook, e₁) := o.preToolUse e block.name block.input
  let input := hook.effectiveInput block.input
  match hook.stopReason block.name with
  | some reason => (.refused block hook none reason, e₁)
  | none =>
    let authorization := policy.authorizeWithContext o.decide o.fromStr block.name input
      hook.context (if hasPrompter then some e₁ else none)
    let e₂ := authorization.prompter.getD e₁
    match authorization.outcome with
    | .deny reason => (.refused block hook (some authorization) reason, e₂)
    | .allow =>
      let (result, e₃) := o.execute e₂ block.name input
      let (output, isError) := match result with
        | .ok output => (output, false)
        | .error message => (message, true)
      let output := mergeHookFeedback hook.messages output false
      let (post, e₄) :=
        if isError then o.postToolUseFailure e₃ block.name input output
        else o.postToolUse e₃ block.name input output false
      let message := ConversationMessage.toolResult block.id block.name
        (mergeHookFeedback post.messages output post.stopped) (isError || post.stopped)
      (⟨block, hook, some authorization, [(block.name, input)], message⟩, e₄)

/-- `push_message`: a message whose record was not persisted is taken back. -/
def pushMessage (session : Session) (message : ConversationMessage) (e : E) :
    Except String Unit × Session × E :=
  let (now, e₁) := o.clock e
  let touched := session.touch now
  let pushed := { touched with messages := touched.messages ++ [message] }
  match o.persist e₁ pushed message with
  | (.ok (), e₂) => (.ok (), pushed, e₂)
  | (.error error, e₂) => (.error error, touched, e₂)

/-- Where the tool loop stands: it ends early when a result is not persisted. -/
structure ToolLoop (E : Type) where
  outside : E
  session : Session
  records : List (ToolRecord E)
  error : Option RuntimeError

def runTools (policy : PermissionPolicy) (hasPrompter : Bool) :
    List ToolUse → Session → E → ToolLoop E
  | [], session, e => ⟨e, session, [], none⟩
  | block :: rest, session, e =>
    let (record, e₁) := runTool o policy hasPrompter block e
    match pushMessage o session record.message e₁ with
    | (.error error, session', e₂) => ⟨e₂, session', [record], some (.sessionState error)⟩
    | (.ok (), session', e₂) =>
      let tail := runTools policy hasPrompter rest session' e₂
      { tail with records := record :: tail.records }

structure TurnState (E : Type) where
  outside : E
  session : Session
  usageTracker : UsageTracker
  assistantMessages : List ConversationMessage
  toolResults : List ConversationMessage
  promptCacheEvents : List PromptCacheEvent
  iterations : Nat
  log : List (IterationRecord E)

/-- One iteration from its loop head; `ok true` leaves the loop. -/
def iterate (runtime : ConversationRuntime) (hasPrompter : Bool) (s : TurnState E) :
    Except RuntimeError Bool × TurnState E :=
  let (cancelled, e₁) := o.cancelRequested s.outside
  if cancelled then (.error .cancelled, { s with outside := e₁ })
  else
    match o.stream e₁ ⟨runtime.systemPrompt, s.session.messages⟩ with
    | (.error error, e₂) => (.error error, { s with outside := e₂ })
    | (.ok events, e₂) =>
      match buildAssistantMessage events with
      | .error error => (.error error, { s with outside := e₂ })
      | .ok (message, usage, cacheEvents) =>
        let counted := { s with
          usageTracker := (usage.map s.usageTracker.record).getD s.usageTracker
          promptCacheEvents := s.promptCacheEvents ++ cacheEvents
          iterations := s.iterations + 1 }
        match pushMessage o s.session message e₂ with
        | (.error error, session, e₃) =>
          (.error (.sessionState error), { counted with outside := e₃, session })
        | (.ok (), session, e₃) =>
          let tools := runTools o runtime.permissionPolicy hasPrompter
            (pendingToolUses message) session e₃
          let after := { counted with
            outside := tools.outside
            session := tools.session
            assistantMessages := s.assistantMessages ++ [message]
            toolResults := s.toolResults ++ tools.records.map ToolRecord.message
            log := s.log ++ [⟨message, tools.records⟩] }
          if pendingToolUses message = [] then (.ok true, after)
          else
            match tools.error with
            | some error => (.error error, after)
            | none => (.ok false, after)

/-- The loop of `run_turn`; `remaining` iterations are left. -/
def turnLoop (runtime : ConversationRuntime) (hasPrompter : Bool) :
    (remaining : Nat) → TurnState E → Except RuntimeError Unit × TurnState E
  | 0, s => (.error .maxIterations, s)
  | remaining + 1, s =>
    match iterate o runtime hasPrompter s with
    | (.error error, s') => (.error error, s')
    | (.ok true, s') => (.ok (), s')
    | (.ok false, s') => turnLoop runtime hasPrompter remaining s'

/-- What one iteration can do: stop before it pushes anything, fail to push the
assistant message, or push it and run the tool loop. -/
inductive IterationEffect (runtime : ConversationRuntime) (hasPrompter : Bool)
    (s : TurnState E) : Except RuntimeError Bool → TurnState E → Prop where
  | stopped {error : RuntimeError} {s' : TurnState E} (hsession : s'.session = s.session)
      (hlog : s'.log = s.log) (hresults : s'.toolResults = s.toolResults) :
      IterationEffect runtime hasPrompter s (.error error) s'
  | unpersisted {text : String} {s' : TurnState E} {message : ConversationMessage} {e e' : E}
      {session' : Session}
      (hpush : pushMessage o s.session message e = (.error text, session', e'))
      (hlog : s'.log = s.log) :
      IterationEffect runtime hasPrompter s (.error (.sessionState text)) s'
  | pushed {events : List AssistantEvent} {message : ConversationMessage}
      {usage : Option TokenUsage} {cacheEvents : List PromptCacheEvent} {e e' : E}
      {session' : Session} {tools : ToolLoop E} {s' : TurnState E}
      {result : Except RuntimeError Bool}
      (hbuilt : buildAssistantMessage events = .ok (message, usage, cacheEvents))
      (hpush : pushMessage o s.session message e = (.ok (), session', e'))
      (htools : tools = runTools o runtime.permissionPolicy hasPrompter (pendingToolUses message)
        session' e')
      (hsession : s'.session = tools.session)
      (hlog : s'.log = s.log ++ [⟨message, tools.records⟩])
      (hresults : s'.toolResults = s.toolResults ++ tools.records.map ToolRecord.message)
      (hres : result = .ok true ∧ pendingToolUses message = [] ∨
        (∃ error, result = .error error ∧ tools.error = some error) ∨
        result = .ok false ∧ tools.error = none) :
      IterationEffect runtime hasPrompter s result s'

theorem iterate_effect {runtime : ConversationRuntime} {hasPrompter : Bool} {s s' : TurnState E}
    {result : Except RuntimeError Bool} (h : iterate o runtime hasPrompter s = (result, s')) :
    IterationEffect o runtime hasPrompter s result s' := by
  unfold iterate at h
  dsimp only at h
  split at h
  · cases h
    exact .stopped rfl rfl rfl
  · split at h
    · cases h
      exact .stopped rfl rfl rfl
    · split at h
      · cases h
        exact .stopped rfl rfl rfl
      · rename_i hbuilt
        split at h
        · rename_i hpush
          cases h
          exact .unpersisted hpush rfl
        · rename_i hpush
          split at h
          · rename_i hpend
            cases h
            exact .pushed hbuilt hpush rfl rfl rfl rfl (.inl ⟨rfl, hpend⟩)
          · split at h
            · rename_i error herror
              cases h
              exact .pushed hbuilt hpush rfl rfl rfl rfl (.inr (.inl ⟨error, rfl, herror⟩))
            · rename_i herror
              cases h
              exact .pushed hbuilt hpush rfl rfl rfl rfl (.inr (.inr ⟨rfl, herror⟩))

def probeInput : String := "\x7b\"pattern\": \"*.health-check-probe-\"\x7d"

def runSessionHealthProbe (session : Session) (e : E) : Except String Unit × E :=
  if session.messages = [] ∧ session.compaction.isSome then (.ok (), e)
  else
    match o.execute e "glob_search" probeInput with
    | (.ok _, e') => (.ok (), e')
    | (.error error, e') => (.error ("Tool executor probe failed: " ++ error), e')

/-- The probe a turn starts with, after a compaction. -/
def probeIfCompacted (session : Session) (e : E) : Except String Unit × E :=
  if session.compaction.isSome then runSessionHealthProbe o session e else (.ok (), e)

/-- The messages kept are at least one, so no index of the compaction is out of
range. -/
def maybeAutoCompact (session : Session) (usageTracker : UsageTracker) (threshold : Nat)
    (now : Nat) : Session × Option Nat :=
  if usageTracker.cumulative.inputTokens < threshold then (session, none)
  else
    match compactSession session { CompactionConfig.standard with maxEstimatedTokens := 0 } now with
    | none => (session, none)
    | some result =>
      if result.removedMessageCount = 0 then (session, none)
      else (result.compactedSession, some result.removedMessageCount)

structure TurnRun (E : Type) where
  outside : E
  runtime : ConversationRuntime
  result : Except RuntimeError TurnSummary
  log : List (IterationRecord E)

def TurnState.finish (runtime : ConversationRuntime) (result : Except RuntimeError TurnSummary)
    (s : TurnState E) : TurnRun E :=
  ⟨s.outside, { runtime with session := s.session, usageTracker := s.usageTracker }, result, s.log⟩

def runTurn (runtime : ConversationRuntime) (userInput : String) (hasPrompter : Bool) (e : E) :
    TurnRun E :=
  match probeIfCompacted o runtime.session e with
  | (.error error, e₁) =>
    ⟨e₁, runtime, .error (.sessionState ("Session health probe failed after compaction: " ++
      error ++ ". The session may be in an inconsistent state. " ++
      "Consider starting a fresh session with /session new.")), []⟩
  | (.ok (), e₁) =>
    match pushMessage o runtime.session (.userText userInput) e₁ with
    | (.error error, session, e₂) =>
      ⟨e₂, { runtime with session }, .error (.sessionState error), []⟩
    | (.ok (), session, e₂) =>
      match turnLoop o runtime hasPrompter runtime.maxIterations
          ⟨e₂, session, runtime.usageTracker, [], [], [], 0, []⟩ with
      | (.error error, s) => s.finish runtime (.error error)
      | (.ok (), s) =>
        let (now, e₃) := o.clock s.outside
        let (session, autoCompaction) := maybeAutoCompact s.session s.usageTracker
          runtime.autoCompactionInputTokensThreshold now
        let summary := ⟨s.assistantMessages, s.toolResults, s.promptCacheEvents,
          s.iterations, s.usageTracker.cumulative, autoCompaction⟩
        { s with outside := e₃, session }.finish runtime (.ok summary)

end Turn

end DbClinic.Runtime
