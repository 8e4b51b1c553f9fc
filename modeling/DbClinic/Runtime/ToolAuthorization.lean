import DbClinic.Runtime.TurnPairing

/-!
No tool runs unauthorised: the tool executor is called for a tool use of the
assistant message only, with the input its permission was asked for, after a
hook that did not stop it, and once at most. A tool use that is not run is
answered with an error. A turn that cannot persist a message ends there.
-/

namespace DbClinic.Runtime

open List

variable {E : Type} {o : Outside E}

theorem stopReason_eq_none {hook : HookRunResult} {toolName : String} :
    hook.stopReason toolName = none ↔ hook.stopped = false := by
  unfold HookRunResult.stopReason HookRunResult.stopped
  cases hook.denied <;> cases hook.failed <;> cases hook.cancelled <;> simp

/-- What the policy and the hook allow of one tool use, and what it is answered
when it is not run. -/
structure ToolRecord.Authorised (o : Outside E) (policy : PermissionPolicy) (r : ToolRecord E) :
    Prop where
  once : r.calls.length ≤ 1
  allowed : ∀ name input, (name, input) ∈ r.calls →
    name = r.block.name ∧ input = r.hook.effectiveInput r.block.input ∧ r.hook.stopped = false ∧
      ∃ prompter authorization, r.authorization = some authorization ∧
        authorization = policy.authorizeWithContext o.decide o.fromStr name input r.hook.context
          prompter ∧ authorization.outcome = .allow
  answered : r.calls = [] → ∃ output,
    r.message = .toolResult r.block.id r.block.name output true

theorem ToolRecord.Authorised.refused (policy : PermissionPolicy) (block : ToolUse)
    (hook : HookRunResult) (authorization : Option (Authorization E)) (reason : String) :
    (ToolRecord.refused block hook authorization reason).Authorised o policy :=
  ⟨Nat.zero_le 1, nofun, fun _ => ⟨_, rfl⟩⟩

theorem runTool_authorised (policy : PermissionPolicy) (hasPrompter : Bool) (block : ToolUse)
    (e : E) :
    (runTool o policy hasPrompter block e).1.block = block ∧
      (runTool o policy hasPrompter block e).1.Authorised o policy := by
  unfold runTool
  dsimp only
  split
  · exact ⟨rfl, .refused policy block _ _ _⟩
  · rename_i hstop
    split
    · exact ⟨rfl, .refused policy block _ _ _⟩
    · rename_i hallow
      refine ⟨rfl, Nat.le_refl 1, ?_, nofun⟩
      intro name input hcall
      obtain ⟨rfl, rfl⟩ := Prod.mk.injEq .. ▸ mem_singleton.mp hcall
      exact ⟨rfl, rfl, stopReason_eq_none.mp hstop, _, _, rfl, rfl, hallow⟩

theorem pushMessage_cases (session : Session) (message : ConversationMessage) (e : E) :
    (∃ session' e', pushMessage o session message e = (.ok (), session', e') ∧
        session'.messages = session.messages ++ [message]) ∨
      ∃ error session' e', pushMessage o session message e = (.error error, session', e') := by
  unfold pushMessage
  dsimp only
  split
  · exact .inl ⟨_, _, rfl, rfl⟩
  · exact .inr ⟨_, _, _, rfl⟩

def OfFailedPush (o : Outside E) (error : RuntimeError) : Prop :=
  ∃ text session message e, error = .sessionState text ∧
    (pushMessage o session message e).1 = .error text

/-- What the tool loop records: authorised tool uses, in the order of the
message; all of them, with their results pushed, unless a push failed. -/
structure ToolLoop.Spec (o : Outside E) (policy : PermissionPolicy) (uses : List ToolUse)
    (session : Session) (loop : ToolLoop E) : Prop where
  authorised : ∀ r ∈ loop.records, r.Authorised o policy
  blocks : ∃ rest, uses = loop.records.map ToolRecord.block ++ rest
  complete : loop.error = none → loop.records.map ToolRecord.block = uses ∧
    loop.session.messages = session.messages ++ loop.records.map ToolRecord.message
  failed : ∀ error, loop.error = some error → OfFailedPush o error

theorem runTools_spec (policy : PermissionPolicy) (hasPrompter : Bool) (uses : List ToolUse)
    (session : Session) (e : E) :
    (runTools o policy hasPrompter uses session e).Spec o policy uses session := by
  induction uses generalizing session e with
  | nil =>
    simp only [runTools]
    refine ⟨?_, ⟨[], rfl⟩, ?_, ?_⟩
    · intro r hr
      cases hr
    · intro _
      exact ⟨rfl, (append_nil _).symm⟩
    · intro error herror
      cases herror
  | cons block rest ih =>
    obtain ⟨hblock, hrecord⟩ := runTool_authorised (o := o) policy hasPrompter block e
    rcases pushMessage_cases (o := o) session (runTool o policy hasPrompter block e).1.message
      (runTool o policy hasPrompter block e).2 with
      ⟨session', e', hpush, hmsgs⟩ | ⟨error, session', e', hpush⟩
    · have htail := ih session' e'
      simp only [runTools, hpush]
      obtain ⟨more, hmore⟩ := htail.blocks
      refine ⟨?_, ⟨more, ?_⟩, ?_, htail.failed⟩
      · intro r hr
        rcases mem_cons.mp hr with rfl | hr
        · exact hrecord
        · exact htail.authorised r hr
      · rw [map_cons, hblock, cons_append, ← hmore]
      · intro hnone
        obtain ⟨hblocks, hsession⟩ := htail.complete hnone
        refine ⟨by rw [map_cons, hblock, hblocks], ?_⟩
        rw [hsession, hmsgs, append_assoc]
        rfl
    · simp only [runTools, hpush]
      refine ⟨?_, ⟨rest, ?_⟩, ?_, ?_⟩
      · intro r hr
        rw [mem_singleton.mp hr]
        exact hrecord
      · rw [map_singleton, hblock, singleton_append]
      · intro hnone
        cases hnone
      · intro error' herror'
        cases herror'
        exact ⟨error, session, _, _, rfl, by rw [hpush]⟩

/-- What a turn's log says of one iteration: the records are those of the first
tool uses of its message. -/
structure IterationRecord.Authorised (o : Outside E) (policy : PermissionPolicy)
    (it : IterationRecord E) : Prop where
  records : ∀ r ∈ it.records, r.Authorised o policy
  blocks : ∃ rest, pendingToolUses it.message = it.records.map ToolRecord.block ++ rest

def IterationRecord.Complete (it : IterationRecord E) : Prop :=
  it.records.map ToolRecord.block = pendingToolUses it.message

def IterationRecord.pushed (it : IterationRecord E) : List ConversationMessage :=
  it.message :: it.records.map ToolRecord.message

/-- A message of the turn could not be persisted, and the turn ended there. -/
def EndsUnpersisted (o : Outside E) {α : Type} (result : Except RuntimeError α) : Prop :=
  ∃ error, result = .error error ∧ OfFailedPush o error

/-- What the loop has done so far, from the messages it started with. -/
structure LoopLog (o : Outside E) (policy : PermissionPolicy) (start : List ConversationMessage)
    (s : TurnState E) : Prop where
  authorised : ∀ it ∈ s.log, it.Authorised o policy
  complete : ∀ it ∈ s.log, it.Complete
  messages : s.session.messages = start ++ s.log.flatMap IterationRecord.pushed
  toolResults : s.toolResults = s.log.flatMap fun it => it.records.map ToolRecord.message

variable {runtime : ConversationRuntime} {hasPrompter : Bool} {start : List ConversationMessage}
variable {s : TurnState E} {result : Except RuntimeError Bool} {before : List (String × String)}

theorem iterate_log {s' : TurnState E} (hiterate : iterate o runtime hasPrompter s = (result, s'))
    (h : LoopLog o runtime.permissionPolicy start s) :
    (∀ it ∈ s'.log, it.Authorised o runtime.permissionPolicy) ∧
      (EndsUnpersisted o result ∨ LoopLog o runtime.permissionPolicy start s') := by
  cases iterate_effect o hiterate with
  | stopped hsession hlog hresults =>
    refine ⟨hlog ▸ h.authorised, .inr ⟨hlog ▸ h.authorised, hlog ▸ h.complete, ?_, ?_⟩⟩
    · rw [hsession, hlog, h.messages]
    · rw [hresults, hlog, h.toolResults]
  | unpersisted hpush hlog =>
    exact ⟨hlog ▸ h.authorised, .inl ⟨_, rfl, _, _, _, _, rfl, by rw [hpush]⟩⟩
  | pushed hbuilt hpush htools hsession hlog hresults hres =>
    rename_i events message usage cacheEvents e e' session' tools
    have hspec := runTools_spec (o := o) runtime.permissionPolicy hasPrompter
      (pendingToolUses message) session' e'
    rw [← htools] at hspec
    have hauthorised : ∀ it ∈ s'.log, it.Authorised o runtime.permissionPolicy := by
      rw [hlog]
      intro it hit
      rcases mem_append.mp hit with hit | hit
      · exact h.authorised it hit
      · rw [mem_singleton.mp hit]
        exact ⟨hspec.authorised, hspec.blocks⟩
    refine ⟨hauthorised, ?_⟩
    have hnone : tools.error = none → LoopLog o runtime.permissionPolicy start s' := by
      intro herror
      obtain ⟨hblocks, hmsgs⟩ := hspec.complete herror
      have hpushed : session'.messages = s.session.messages ++ [message] := by
        rcases pushMessage_cases (o := o) s.session message e with
          ⟨session, e₂, hok, hmsgs⟩ | ⟨error, session, e₂, hfail⟩
        · rw [hpush] at hok
          cases hok
          exact hmsgs
        · rw [hpush] at hfail
          cases hfail
      refine ⟨hauthorised, ?_, ?_, ?_⟩
      · rw [hlog]
        intro it hit
        rcases mem_append.mp hit with hit | hit
        · exact h.complete it hit
        · rw [mem_singleton.mp hit]
          exact hblocks
      · rw [hsession, hmsgs, hpushed, h.messages, hlog]
        simp [IterationRecord.pushed]
      · rw [hresults, h.toolResults, hlog]
        simp
    rcases hres with ⟨-, hpend⟩ | ⟨error, rfl, herror⟩ | ⟨-, herror⟩
    · refine .inr (hnone ?_)
      rw [htools, hpend]
      rfl
    · exact .inl ⟨error, rfl, hspec.failed error herror⟩
    · exact .inr (hnone herror)

theorem turnLoop_log (runtime : ConversationRuntime) (hasPrompter : Bool) (remaining : Nat)
    (h : LoopLog o runtime.permissionPolicy start s) :
    (∀ it ∈ (turnLoop o runtime hasPrompter remaining s).2.log,
        it.Authorised o runtime.permissionPolicy) ∧
      (EndsUnpersisted o (turnLoop o runtime hasPrompter remaining s).1 ∨
        LoopLog o runtime.permissionPolicy start
          (turnLoop o runtime hasPrompter remaining s).2) := by
  induction remaining generalizing s with
  | zero => exact ⟨h.authorised, .inr h⟩
  | succ remaining ih =>
    unfold turnLoop
    split
    · rename_i hiterate
      obtain ⟨hauthorised, hlog⟩ := iterate_log hiterate h
      refine ⟨hauthorised, hlog.imp ?_ id⟩
      rintro ⟨error, herror, hpush⟩
      cases herror
      exact ⟨_, rfl, hpush⟩
    · rename_i hiterate
      obtain ⟨hauthorised, hlog⟩ := iterate_log hiterate h
      refine ⟨hauthorised, .inr (hlog.resolve_left ?_)⟩
      rintro ⟨error, herror, -⟩
      cases herror
    · rename_i hiterate
      obtain ⟨-, hlog⟩ := iterate_log hiterate h
      refine ih (hlog.resolve_left ?_)
      rintro ⟨error, herror, -⟩
      cases herror

theorem turnLoop_start (runtime : ConversationRuntime) (session : Session) (e : E) :
    LoopLog o runtime.permissionPolicy session.messages
      ⟨e, session, runtime.usageTracker, [], [], [], 0, []⟩ :=
  ⟨nofun, nofun, (append_nil _).symm, rfl⟩

/-- In every turn, the executor is called for authorised tool uses only; unless
the turn ends because a message could not be persisted, every tool use is
answered: its result is in the summary, or in the session of a turn that failed. -/
theorem runTurn_authorised (o : Outside E) (runtime : ConversationRuntime) (userInput : String)
    (hasPrompter : Bool) (e : E) :
    (∀ it ∈ (runTurn o runtime userInput hasPrompter e).log,
        it.Authorised o runtime.permissionPolicy) ∧
      (EndsUnpersisted o (runTurn o runtime userInput hasPrompter e).result ∨
        ∀ it ∈ (runTurn o runtime userInput hasPrompter e).log, it.Complete ∧ ∀ r ∈ it.records,
          match (runTurn o runtime userInput hasPrompter e).result with
          | .ok summary => r.message ∈ summary.toolResults
          | .error _ => r.message ∈
              (runTurn o runtime userInput hasPrompter e).runtime.session.messages) := by
  unfold runTurn
  split
  · exact ⟨nofun, .inr nofun⟩
  · split
    · exact ⟨nofun, .inr nofun⟩
    · rename_i session e₂ _
      have hloop := turnLoop_log runtime hasPrompter runtime.maxIterations
        (turnLoop_start (o := o) runtime session e₂)
      split
      · rename_i error s hres
        rw [hres] at hloop
        obtain ⟨hauthorised, hlog⟩ := hloop
        refine ⟨hauthorised, hlog.imp ?_ ?_⟩
        · rintro ⟨error', herror, hpush⟩
          cases herror
          exact ⟨_, rfl, hpush⟩
        · intro hlog it hit
          refine ⟨hlog.complete it hit, fun r hr => ?_⟩
          change r.message ∈ s.session.messages
          rw [hlog.messages]
          refine mem_append_right _ (mem_flatMap.mpr ⟨it, hit, ?_⟩)
          exact mem_cons_of_mem _ (mem_map_of_mem hr)
      · rename_i s hres
        rw [hres] at hloop
        obtain ⟨hauthorised, hlog⟩ := hloop
        refine ⟨hauthorised, .inr fun it hit => ?_⟩
        rcases hlog with ⟨error', herror, -⟩ | hlog
        · cases herror
        · refine ⟨hlog.complete it hit, fun r hr => ?_⟩
          change r.message ∈ s.toolResults
          rw [hlog.toolResults]
          exact mem_flatMap.mpr ⟨it, hit, mem_map_of_mem hr⟩

def Outside.logged (o : Outside E) : Outside (E × List (String × String)) where
  stream e request := ((o.stream e.1 request).1, (o.stream e.1 request).2, e.2)
  execute e toolName input :=
    ((o.execute e.1 toolName input).1, (o.execute e.1 toolName input).2, e.2 ++ [(toolName, input)])
  preToolUse e toolName input :=
    ((o.preToolUse e.1 toolName input).1, (o.preToolUse e.1 toolName input).2, e.2)
  postToolUse e toolName input output isError :=
    ((o.postToolUse e.1 toolName input output isError).1,
      (o.postToolUse e.1 toolName input output isError).2, e.2)
  postToolUseFailure e toolName input output :=
    ((o.postToolUseFailure e.1 toolName input output).1,
      (o.postToolUseFailure e.1 toolName input output).2, e.2)
  cancelRequested e := ((o.cancelRequested e.1).1, (o.cancelRequested e.1).2, e.2)
  decide e request := ((o.decide e.1 request).1, (o.decide e.1 request).2, e.2)
  clock e := ((o.clock e.1).1, (o.clock e.1).2, e.2)
  persist e session message :=
    ((o.persist e.1 session message).1, (o.persist e.1 session message).2, e.2)
  fromStr := o.fromStr

def IterationRecord.calls (it : IterationRecord E) : List (String × String) :=
  it.records.flatMap ToolRecord.calls

theorem logged_prompter (policy : PermissionPolicy) (toolName input : String)
    (context : PermissionContext) (hasPrompter : Bool) (e : E × List (String × String)) :
    ((policy.authorizeWithContext o.logged.decide o.logged.fromStr toolName input context
      (if hasPrompter then some e else none)).prompter.getD e).2 = e.2 := by
  have hgiven : ∀ e' ∈ (if hasPrompter then some e else none), e'.2 = e.2 := by
    intro e' he'
    split at he'
    · cases he'
      rfl
    · cases he'
  have hkept := PermissionPolicy.authorizeWithContext_prompter o.logged.decide o.logged.fromStr
    (Q := fun e' => e'.2 = e.2) (fun _ _ h => h) policy toolName input context hgiven
  cases hprompter : (policy.authorizeWithContext o.logged.decide o.logged.fromStr toolName input
      context (if hasPrompter then some e else none)).prompter with
  | none => rfl
  | some e' => exact hkept e' hprompter

theorem runTool_calls (policy : PermissionPolicy) (hasPrompter : Bool) (block : ToolUse)
    (e : E × List (String × String)) :
    (runTool o.logged policy hasPrompter block e).2.2 =
      e.2 ++ (runTool o.logged policy hasPrompter block e).1.calls := by
  have hasked := logged_prompter (o := o) policy block.name
    ((o.preToolUse e.1 block.name block.input).1.effectiveInput block.input)
    (o.preToolUse e.1 block.name block.input).1.context hasPrompter
    ((o.preToolUse e.1 block.name block.input).2, e.2)
  unfold runTool
  dsimp only
  split
  · exact (append_nil _).symm
  · split
    · exact hasked.trans (append_nil _).symm
    · -- the executor is called once, the hooks behind it log nothing
      have hpost : ∀ (isError : Bool) (e' : E × List (String × String))
          (toolName input output : String),
          (if isError then o.logged.postToolUseFailure e' toolName input output
            else o.logged.postToolUse e' toolName input output false).2.2 = e'.2 := by
        intro isError e' toolName input output
        cases isError <;> rfl
      exact (hpost _ _ _ _ _).trans (congrArg (· ++ [(block.name, _)]) hasked)

theorem pushMessage_calls (session : Session) (message : ConversationMessage)
    (e : E × List (String × String)) :
    (pushMessage o.logged session message e).2.2.2 = e.2 := by
  unfold pushMessage
  dsimp only
  split
  · rename_i hpersist
    have heq := congrArg (fun outcome => outcome.2.2) hpersist
    exact heq.symm
  · rename_i hpersist
    have heq := congrArg (fun outcome => outcome.2.2) hpersist
    exact heq.symm

theorem runTools_calls (policy : PermissionPolicy) (hasPrompter : Bool) (uses : List ToolUse)
    (session : Session) (e : E × List (String × String)) :
    (runTools o.logged policy hasPrompter uses session e).outside.2 =
      e.2 ++ (runTools o.logged policy hasPrompter uses session e).records.flatMap
        ToolRecord.calls := by
  induction uses generalizing session e with
  | nil => exact (append_nil _).symm
  | cons block rest ih =>
    have hcalls := runTool_calls (o := o) policy hasPrompter block e
    have hpush := pushMessage_calls (o := o) session
      (runTool o.logged policy hasPrompter block e).1.message
      (runTool o.logged policy hasPrompter block e).2
    simp only [runTools]
    split
    · rename_i heq
      rw [heq] at hpush
      simp only [flatMap_cons, flatMap_nil, append_nil]
      rw [← hcalls]
      exact hpush
    · rename_i session' e₂ heq
      rw [heq] at hpush
      simp only [flatMap_cons]
      rw [ih session' e₂, ← append_assoc, ← hcalls]
      exact congrArg (· ++ _) hpush

/-- The calls of the loop so far, behind those made before it. -/
def CallsLogged (before : List (String × String)) (s : TurnState (E × List (String × String))) :
    Prop :=
  s.outside.2 = before ++ s.log.flatMap IterationRecord.calls

theorem iterate_calls {s s' : TurnState (E × List (String × String))}
    (h : iterate o.logged runtime hasPrompter s = (result, s')) (hs : CallsLogged before s) :
    CallsLogged before s' := by
  unfold iterate at h
  dsimp only at h
  split at h
  · cases h
    exact hs
  · split at h
    · rename_i error e₂ hstream
      have he₂ : e₂.2 = s.outside.2 := (congrArg (fun outcome => outcome.2.2) hstream).symm
      cases h
      exact he₂.trans hs
    · rename_i events e₂ hstream
      have he₂ : e₂.2 = s.outside.2 := (congrArg (fun outcome => outcome.2.2) hstream).symm
      split at h
      · cases h
        exact he₂.trans hs
      · rename_i message usage cacheEvents _
        have hpushCalls := pushMessage_calls (o := o) s.session message e₂
        split at h
        · rename_i hpush
          rw [hpush] at hpushCalls
          cases h
          exact hpushCalls.trans (he₂.trans hs)
        · rename_i session e₃ hpush
          rw [hpush] at hpushCalls
          have htools := runTools_calls (o := o) runtime.permissionPolicy hasPrompter
            (pendingToolUses message) session e₃
          have hafter : (runTools o.logged runtime.permissionPolicy hasPrompter
              (pendingToolUses message) session e₃).outside.2 = before ++ (s.log ++
                [IterationRecord.mk message (runTools o.logged runtime.permissionPolicy hasPrompter
                  (pendingToolUses message) session e₃).records]).flatMap
                    IterationRecord.calls := by
            have he₃ : e₃.2 = before ++ s.log.flatMap IterationRecord.calls :=
              hpushCalls.trans (he₂.trans hs)
            rw [htools, he₃, flatMap_append, append_assoc]
            simp [IterationRecord.calls]
          split at h
          · cases h
            exact hafter
          · split at h
            · cases h
              exact hafter
            · cases h
              exact hafter

theorem turnLoop_calls (runtime : ConversationRuntime) (hasPrompter : Bool) (remaining : Nat)
    {s : TurnState (E × List (String × String))} (hs : CallsLogged before s) :
    CallsLogged before (turnLoop o.logged runtime hasPrompter remaining s).2 := by
  induction remaining generalizing s with
  | zero => exact hs
  | succ remaining ih =>
    unfold turnLoop
    split
    · rename_i hiterate
      exact iterate_calls hiterate hs
    · rename_i hiterate
      exact iterate_calls hiterate hs
    · rename_i hiterate
      exact ih (iterate_calls hiterate hs)

def probeCalls (session : Session) : List (String × String) :=
  if session.compaction.isSome ∧ session.messages ≠ [] then [("glob_search", probeInput)] else []

theorem probeIfCompacted_calls (session : Session) (e : E × List (String × String)) :
    (probeIfCompacted o.logged session e).2.2 = e.2 ++ probeCalls session := by
  unfold probeIfCompacted probeCalls
  cases hcompaction : session.compaction.isSome with
  | false => simp
  | true =>
    unfold runSessionHealthProbe
    by_cases hempty : session.messages = []
    · simp [hempty, hcompaction]
    · simp only [hempty, hcompaction, false_and, if_false, if_true, true_and, ne_eq,
        not_false_eq_true]
      split
      · rename_i hexecute
        exact (congrArg (fun outcome => outcome.2.2) hexecute).symm
      · rename_i hexecute
        exact (congrArg (fun outcome => outcome.2.2) hexecute).symm

theorem runTurn_calls (o : Outside E) (runtime : ConversationRuntime) (userInput : String)
    (hasPrompter : Bool) (e : E) :
    (runTurn o.logged runtime userInput hasPrompter (e, [])).outside.2 =
      probeCalls runtime.session ++
        (runTurn o.logged runtime userInput hasPrompter (e, [])).log.flatMap
          IterationRecord.calls := by
  have hprobe := probeIfCompacted_calls (o := o) runtime.session (e, [])
  unfold runTurn
  split
  · rename_i heq
    rw [heq] at hprobe
    exact hprobe.trans (by simp)
  · rename_i e₁ heq
    rw [heq] at hprobe
    have hpushCalls := pushMessage_calls (o := o) runtime.session (.userText userInput) e₁
    split
    · rename_i hpush
      rw [hpush] at hpushCalls
      exact hpushCalls.trans (hprobe.trans (by simp))
    · rename_i session e₂ hpush
      rw [hpush] at hpushCalls
      have hstart : CallsLogged (probeCalls runtime.session)
          (⟨e₂, session, runtime.usageTracker, [], [], [], 0, []⟩ : TurnState _) :=
        hpushCalls.trans (hprobe.trans (by simp))
      have hloop := turnLoop_calls (o := o) runtime hasPrompter runtime.maxIterations hstart
      split
      · rename_i hres
        rw [hres] at hloop
        exact hloop
      · rename_i hres
        rw [hres] at hloop
        exact hloop

/-- With room for two messages, the first result is not persisted: the second
tool use of the assistant message is neither run nor answered. -/
theorem runTurn_leaves_tool_use_unanswered :
    let run := runTurn (searchOutside 3) searchRuntime "Search" false 0
    (run.log.map fun it => ((pendingToolUses it.message).map ToolUse.id,
        it.records.map fun r => r.block.id)) = [(["call_1", "call_2"], ["call_1"])] ∧
      run.result = .error (.sessionState "disk full") ∧
      ∀ m ∈ run.runtime.session.messages, HoldsNoResult m := by
  decide +kernel

end DbClinic.Runtime
