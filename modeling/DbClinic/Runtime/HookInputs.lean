import DbClinic.Runtime.HookChain
import DbClinic.Runtime.JsonRoundTrip

/-!
What the hooks before a tool call are told about the input. Every command gets a call: the
environment and the payload on its standard input. The chain is logged, each call beside
its outcome.
-/

namespace DbClinic.Runtime

open List

/-- The variables of the environment, and the value that is written to the standard input. -/
structure HookCall where
  event : HookEvent
  toolName : String
  toolInput : String
  isError : Bool
  toolOutput : Option String
  payload : Serde.Value

structure HookCommand where
  command : String
  run : HookCall → CommandExecution

section Calls

variable (json : SerdeJson)

def parseToolInput (toolInput : String) : Serde.Value :=
  match json.fromStr toolInput with
  | .ok value => value
  | .error _ => .object [("raw", .string toolInput)]

def optionalText : Option String → Serde.Value
  | some text => .string text
  | none => .null

def hookPayload (event : HookEvent) (toolName toolInput : String) (toolOutput : Option String)
    (isError : Bool) : Serde.Value :=
  match event with
  | .postToolUseFailure =>
    .object (entriesOf
      [("hook_event_name", .string event.asStr), ("tool_name", .string toolName),
        ("tool_input", parseToolInput json toolInput), ("tool_input_json", .string toolInput),
        ("tool_error", optionalText toolOutput), ("tool_result_is_error", .bool true)])
  | _ =>
    .object (entriesOf
      [("hook_event_name", .string event.asStr), ("tool_name", .string toolName),
        ("tool_input", parseToolInput json toolInput), ("tool_input_json", .string toolInput),
        ("tool_output", optionalText toolOutput), ("tool_result_is_error", .bool isError)])

/-- The call of a chain: it is made once, before the loop. -/
def hookCall (event : HookEvent) (toolName toolInput : String) (toolOutput : Option String)
    (isError : Bool) : HookCall :=
  ⟨event, toolName, toolInput, isError, toolOutput,
    hookPayload json event toolName toolInput toolOutput isError⟩

abbrev HookLog := List (HookCall × HookCommandOutcome)

/-- The loop of `run_commands`, with what the commands were called with. -/
def runLogged (call : HookCall) (result : HookRunResult) : List HookCommand → HookRunResult × HookLog
  | [] => (result, [])
  | command :: rest =>
    match runCommand json call.event call.toolName command.command (command.run call) with
    | .allow parsed =>
      let (final, log) := runLogged call (mergeParsedHookOutput result parsed) rest
      (final, (call, .allow parsed) :: log)
    | .deny parsed =>
      ({ mergeParsedHookOutput result parsed with denied := true }, [(call, .deny parsed)])
    | .failed parsed =>
      ({ mergeParsedHookOutput result parsed with failed := true }, [(call, .failed parsed)])
    | .cancelled message =>
      ({ result with cancelled := true, messages := result.messages ++ [message] },
        [(call, .cancelled message)])

/-- `run_pre_tool_use`. -/
def runPreToolUse (commands : List HookCommand) (toolName toolInput : String) (aborted : Bool) :
    HookRunResult × HookLog :=
  if commands = [] then (.allow [], [])
  else if aborted then
    ({ HookRunResult.allow [HookEvent.preToolUse.asStr ++ " hook cancelled before execution"] with
      cancelled := true }, [])
  else
    runLogged json (hookCall json .preToolUse toolName toolInput none false) (.allow []) commands

/-- What the processes do when they get the call. -/
def executions (call : HookCall) (commands : List HookCommand) :
    List (String × CommandExecution) :=
  commands.map fun command => (command.command, command.run call)

theorem runLogged_eq (call : HookCall) (result : HookRunResult) (commands : List HookCommand) :
    runLogged json call result commands =
      (runOutcomes result (outcomes json call.event call.toolName (executions call commands)),
        (executed (outcomes json call.event call.toolName (executions call commands))).map
          fun outcome => (call, outcome)) := by
  induction commands generalizing result with
  | nil => rfl
  | cons command rest ih =>
    have hcons : outcomes json call.event call.toolName (executions call (command :: rest)) =
        runCommand json call.event call.toolName command.command (command.run call) ::
          outcomes json call.event call.toolName (executions call rest) := rfl
    rw [hcons]
    unfold runLogged
    cases runCommand json call.event call.toolName command.command (command.run call) with
    | allow parsed => simp [ih, runOutcomes, executed]
    | deny parsed => simp [runOutcomes, executed]
    | failed parsed => simp [runOutcomes, executed]
    | cancelled message => simp [runOutcomes, executed]

/-- The call is about this input, in the environment and in the payload. -/
structure HookCall.Tells (call : HookCall) (input : String) : Prop where
  env : call.toolInput = input
  payload : call.payload.get "tool_input" = some (parseToolInput json input)
  text : call.payload.get "tool_input_json" = some (.string input)

theorem hookCall_tells_iff (toolName toolInput input : String) :
    (hookCall json .preToolUse toolName toolInput none false).Tells json input ↔
      input = toolInput := by
  constructor
  · exact fun h => h.env.symm
  · rintro rfl
    constructor
    · rfl
    · simp only [hookCall, hookPayload, Serde.Value.get, getEntry_entriesOf]
      simp
    · simp only [hookCall, hookPayload, Serde.Value.get, getEntry_entriesOf]
      simp

end Calls

def HookCommandOutcome.updatedInput (outcome : HookCommandOutcome) : Option String :=
  outcome.parsed.bind ParsedHookOutput.updatedInput

/-- The input as the hooks so far have left it. -/
def latestInput (toolInput : String) (before : List HookCommandOutcome) : String :=
  (before.filterMap HookCommandOutcome.updatedInput).getLast?.getD toolInput

/-- Every hook is told about the input as the hooks before it have left it. -/
def GivenLatest (json : SerdeJson) (toolInput : String) (log : HookLog) : Prop :=
  ∀ before call outcome after, log = before ++ (call, outcome) :: after →
    call.Tells json (latestInput toolInput (before.map Prod.snd))

def ExecutesAsked (json : SerdeJson) (toolInput : String) (run : HookRunResult × HookLog) : Prop :=
  ∀ call outcome, run.2.getLast? = some (call, outcome) →
    call.Tells json (run.1.effectiveInput toolInput)

def KeepsInput (toolInput : String) (outcome : HookCommandOutcome) : Prop :=
  ∀ input, outcome.updatedInput = some input → input = toolInput

theorem latestInput_concat {toolInput input : String} {before : List HookCommandOutcome}
    {outcome : HookCommandOutcome} (h : outcome.updatedInput = some input) :
    latestInput toolInput (before ++ [outcome]) = input := by
  simp [latestInput, h]

theorem latestInput_eq {toolInput : String} {before : List HookCommandOutcome}
    (h : ∀ outcome ∈ before, KeepsInput toolInput outcome) :
    latestInput toolInput before = toolInput := by
  unfold latestInput
  cases hlast : (before.filterMap HookCommandOutcome.updatedInput).getLast? with
  | none => rfl
  | some input =>
    obtain ⟨outcome, hmem, hinput⟩ := mem_filterMap.mp (mem_of_getLast? hlast)
    exact h outcome hmem input hinput

theorem latest_everywhere_iff (toolInput : String) (outcomes : List HookCommandOutcome) :
    (∀ before outcome after, outcomes = before ++ outcome :: after →
        latestInput toolInput before = toolInput) ↔
      ∀ outcome ∈ outcomes.dropLast, KeepsInput toolInput outcome := by
  constructor
  · intro h outcome hmem input hinput
    obtain ⟨init, last, rfl⟩ := (eq_nil_or_concat outcomes).resolve_left (by
      rintro rfl
      cases hmem)
    rw [concat_eq_append] at h hmem
    rw [dropLast_concat] at hmem
    obtain ⟨front, back, rfl⟩ := append_of_mem hmem
    -- the hook behind it is told what this one returned
    cases back with
    | nil =>
      have hlatest := h (front ++ [outcome]) last [] rfl
      rwa [latestInput_concat hinput] at hlatest
    | cons next back =>
      have hlatest := h (front ++ [outcome]) next (back ++ [last]) (by simp)
      rwa [latestInput_concat hinput] at hlatest
  · rintro h before outcome after rfl
    apply latestInput_eq
    intro earlier hearlier
    apply h earlier
    rw [dropLast_append_of_ne_nil (by simp)]
    exact mem_append_left _ hearlier

theorem givenLatest_map_iff {json : SerdeJson} {call : HookCall} {toolInput : String}
    (hcall : ∀ input, call.Tells json input ↔ input = toolInput)
    (outcomes : List HookCommandOutcome) :
    GivenLatest json toolInput (outcomes.map fun outcome => (call, outcome)) ↔
      ∀ outcome ∈ outcomes.dropLast, KeepsInput toolInput outcome := by
  have hsnd (before : List HookCommandOutcome) :
      (before.map fun outcome => (call, outcome)).map Prod.snd = before := by
    simp [Function.comp_def]
  rw [← latest_everywhere_iff]
  constructor
  · rintro hgiven before outcome after rfl
    have htells := hgiven (before.map fun outcome => (call, outcome)) call outcome
      (after.map fun outcome => (call, outcome)) (by simp)
    rw [hsnd] at htells
    exact (hcall _).mp htells
  · intro hlatest before called outcome after hsplit
    obtain ⟨front, back, rfl, rfl, hback⟩ := map_eq_append_iff.mp hsplit
    obtain ⟨next, rest, rfl, hnext, -⟩ := map_eq_cons_iff.mp hback
    cases hnext
    rw [hsnd]
    exact (hcall _).mpr (hlatest front _ rest rfl)

theorem executesAsked_map_iff {json : SerdeJson} {call : HookCall} {toolInput : String}
    (hcall : ∀ input, call.Tells json input ↔ input = toolInput) {result : HookRunResult}
    {outcomes : List HookCommandOutcome}
    (hinput : result.effectiveInput toolInput = latestInput toolInput outcomes) :
    ExecutesAsked json toolInput (result, outcomes.map fun outcome => (call, outcome)) ↔
      latestInput toolInput outcomes = toolInput := by
  rcases eq_nil_or_concat outcomes with rfl | ⟨init, last, rfl⟩
  · exact iff_of_true (by simp [ExecutesAsked]) rfl
  · simp only [ExecutesAsked, hinput, concat_eq_append, map_append, map_cons,
      map_nil, getLast?_concat, Option.some.injEq, Prod.mk.injEq]
    constructor
    · exact fun h => (hcall _).mp (h call last ⟨rfl, rfl⟩)
    · rintro h called outcome ⟨rfl, rfl⟩
      exact (hcall _).mpr h

theorem keepsInput_all_iff {toolInput : String} {outcomes : List HookCommandOutcome} :
    (∀ outcome ∈ outcomes.dropLast, KeepsInput toolInput outcome) ∧
        latestInput toolInput outcomes = toolInput ↔
      ∀ outcome ∈ outcomes, KeepsInput toolInput outcome := by
  constructor
  · rintro ⟨hinit, hlatest⟩ outcome hmem input hinput
    rcases eq_nil_or_concat outcomes with rfl | ⟨init, last, rfl⟩
    · cases hmem
    · rw [concat_eq_append] at hinit hlatest hmem
      rw [dropLast_concat] at hinit
      rcases mem_append.mp hmem with hfront | hlast
      · exact hinit outcome hfront input hinput
      · obtain rfl := mem_singleton.mp hlast
        rwa [latestInput_concat hinput] at hlatest
  · intro h
    exact ⟨fun outcome hmem => h outcome (mem_of_mem_dropLast hmem), latestInput_eq h⟩

theorem executed_of_not_stopped {result : HookRunResult} {outcomes : List HookCommandOutcome}
    (h : (runOutcomes result outcomes).stopped = false) : executed outcomes = outcomes := by
  induction outcomes generalizing result with
  | nil => rfl
  | cons outcome rest ih =>
    cases outcome with
    | allow parsed =>
      have hrest : executed rest = rest := ih h
      simp only [executed, hrest]
    | deny parsed => simp [runOutcomes, HookRunResult.stopped] at h
    | failed parsed => simp [runOutcomes, HookRunResult.stopped] at h
    | cancelled message => simp [runOutcomes, HookRunResult.stopped] at h

section Chain

variable (json : SerdeJson) (commands : List HookCommand) (toolName toolInput : String)

def preOutcomes : List HookCommandOutcome :=
  outcomes json .preToolUse toolName
    (executions (hookCall json .preToolUse toolName toolInput none false) commands)

theorem runPreToolUse_of_not_stopped {aborted : Bool}
    (h : (runPreToolUse json commands toolName toolInput aborted).1.stopped = false) :
    (runPreToolUse json commands toolName toolInput aborted).2 =
        (preOutcomes json commands toolName toolInput).map
          (fun outcome => (hookCall json .preToolUse toolName toolInput none false, outcome)) ∧
      (runPreToolUse json commands toolName toolInput aborted).1.effectiveInput toolInput =
        latestInput toolInput (preOutcomes json commands toolName toolInput) := by
  cases commands with
  | nil => exact ⟨rfl, rfl⟩
  | cons command rest =>
    cases aborted with
    | true => simp [runPreToolUse, HookRunResult.stopped] at h
    | false =>
      have hrun := runLogged_eq json
        (hookCall json .preToolUse toolName toolInput none false) (.allow []) (command :: rest)
      simp only [runPreToolUse, cons_ne_nil, if_false, Bool.false_eq_true, hrun] at h ⊢
      have hall := executed_of_not_stopped h
      have hinput := runOutcomes_field ParsedHookOutput.updatedInput
        HookRunResult.updatedInput (fun _ _ => rfl) (fun _ _ _ _ _ => rfl) (.allow [])
        (preOutcomes json (command :: rest) toolName toolInput)
      refine ⟨congrArg _ hall, ?_⟩
      unfold preOutcomes at hinput ⊢
      change executed (outcomes json .preToolUse toolName _) = _ at hall
      rw [hall, show (HookRunResult.allow []).updatedInput = none from rfl,
        Option.or_none] at hinput
      exact congrArg (Option.getD · toolInput) hinput

/-- What a hook is told is what is executed exactly if no hook in front of it changes the
input, and, to the end of the chain, if none changes it at all. -/
theorem hooks_given_latest_iff {aborted : Bool}
    (h : (runPreToolUse json commands toolName toolInput aborted).1.stopped = false) :
    (GivenLatest json toolInput (runPreToolUse json commands toolName toolInput aborted).2 ↔
        ∀ outcome ∈ (preOutcomes json commands toolName toolInput).dropLast,
          KeepsInput toolInput outcome) ∧
      (GivenLatest json toolInput (runPreToolUse json commands toolName toolInput aborted).2 ∧
          ExecutesAsked json toolInput (runPreToolUse json commands toolName toolInput aborted) ↔
        ∀ outcome ∈ preOutcomes json commands toolName toolInput, KeepsInput toolInput outcome) := by
  obtain ⟨hlog, hinput⟩ := runPreToolUse_of_not_stopped json commands toolName toolInput h
  have hcall := hookCall_tells_iff json toolName toolInput
  have hgiven := givenLatest_map_iff hcall (preOutcomes json commands toolName toolInput)
  have hasked := executesAsked_map_iff hcall hinput
  have hrun : runPreToolUse json commands toolName toolInput aborted =
      ((runPreToolUse json commands toolName toolInput aborted).1,
        (preOutcomes json commands toolName toolInput).map fun outcome =>
          (hookCall json .preToolUse toolName toolInput none false, outcome)) :=
    Prod.ext rfl hlog
  rw [hlog]
  refine ⟨hgiven, ?_⟩
  rw [hrun, hgiven, hasked, keepsInput_all_iff]

end Chain

def commandInput (command : String) : String :=
  "\x7b\"command\":\"" ++ command ++ "\"\x7d"

def updateOutput (command : String) : String :=
  "\x7b\"hookSpecificOutput\":\x7b\"updatedInput\":" ++ commandInput command ++ "\x7d\x7d"

def updateJson : SerdeJson where
  fromStr text :=
    if text = updateOutput "ls" then
      .ok (.object [("hookSpecificOutput",
        .object [("updatedInput", .object [("command", .string "ls")])])])
    else if text = commandInput "pwd" then .ok (.object [("command", .string "pwd")])
    else .error "expected value at line 1 column 1"
  toText
    | .object [("command", .string command)] => some (commandInput command)
    | _ => none

def rewriteThenCheck : List HookCommand :=
  [⟨"rewrite", fun _ => .finished (some 0) (updateOutput "ls") ""⟩,
    ⟨"check", fun _ => .finished (some 0) "" ""⟩]

theorem rewriteThenCheck_not_stopped :
    (runPreToolUse updateJson rewriteThenCheck "bash" (commandInput "pwd") false).1.stopped =
      false := by
  decide +kernel

theorem hooks_given_latest_rewriteThenCheck :
    (GivenLatest updateJson (commandInput "pwd")
        (runPreToolUse updateJson rewriteThenCheck "bash" (commandInput "pwd") false).2 ↔
      ∀ outcome ∈ (preOutcomes updateJson rewriteThenCheck "bash" (commandInput "pwd")).dropLast,
        KeepsInput (commandInput "pwd") outcome) :=
  (hooks_given_latest_iff updateJson rewriteThenCheck "bash" (commandInput "pwd")
    rewriteThenCheck_not_stopped).1

/-- The second hook is asked about an input that is not executed. -/
theorem second_hook_not_given_latest :
    ¬GivenLatest updateJson (commandInput "pwd")
      (runPreToolUse updateJson rewriteThenCheck "bash" (commandInput "pwd") false).2 := by
  intro h
  rw [(runPreToolUse_of_not_stopped updateJson rewriteThenCheck "bash" (commandInput "pwd")
    rewriteThenCheck_not_stopped).1] at h
  have hkeeps := (givenLatest_map_iff (hookCall_tells_iff updateJson "bash" _) _).mp h
  have hfirst := hkeeps _ mem_cons_self (commandInput "ls") (by decide +kernel)
  revert hfirst
  decide +kernel

end DbClinic.Runtime
