import DbClinic.Mcp.ManagerRoutes

/-!
When the listing of tools and resources ends. The loop over the pages stops at the first
reply that names no next page, and nothing else stops it: a listing ends if the server's
replies to one attempt do not all name a next page.
-/

namespace DbClinic.Mcp

open DbClinic.Effects

section Pending

variable {W α β T : Type}

/-- The call is still going on when its bound is reached. -/
def Pending : EStateM.Result Interrupt (Session W) α → Prop
  | .error .pending _ => True
  | _ => False

/-- A computation that always ends: it has no loop over pages. -/
def Settles (m : ManagerM W α) : Prop := ∀ s, ¬Pending (m s)

theorem settles_pure (a : α) : Settles (pure a : ManagerM W α) := fun _ => id

theorem settles_fail (reason : McpServerManagerError) : Settles (fail reason : ManagerM W α) :=
  fun _ => id

theorem settles_modifyGet (f : Session W → α × Session W) :
    Settles (EStateM.modifyGet f : ManagerM W α) := fun _ => id

theorem settles_bind {m : ManagerM W α} {f : α → ManagerM W β} (hm : Settles m)
    (hf : ∀ a, Settles (f a)) : Settles (m >>= f) := by
  intro s
  cases hres : m s with
  | ok a t =>
    rw [bind_ok hres]
    exact hf a t
  | error e t =>
    rw [bind_error hres]
    have hnot := hm s
    rw [hres] at hnot
    cases e with
    | error reason => exact id
    | pending => exact absurd trivial hnot

theorem attempt_error {m : ManagerM W α} {s t : Session W} {reason : McpServerManagerError}
    (h : m s = .error (.error reason) t) :
    attempt Interrupt.caught m s = .ok (.error reason) t := by
  rw [attempt, h]
  rfl

theorem attempt_pending {m : ManagerM W α} {s t : Session W} (h : m s = .error .pending t) :
    attempt Interrupt.caught m s = .error .pending t := by
  rw [attempt, h]
  rfl

theorem settles_attempt {m : ManagerM W α} (hm : Settles m) :
    Settles (attempt Interrupt.caught m) := by
  intro s
  have hnot := hm s
  unfold attempt
  cases hres : m s with
  | ok a t => exact id
  | error e t =>
    rw [hres] at hnot
    cases e with
    | error reason => exact id
    | pending => exact absurd trivial hnot

theorem settles_liftIo (r : Except IoError α) : Settles (liftIo r : ManagerM W α) := by
  cases r with
  | ok a => exact settles_pure a
  | error e => exact settles_fail _

theorem settles_serverMut (serverName : String) :
    Settles (serverMut serverName : ManagerM W ManagedMcpServer) := by
  apply settles_bind (settles_modifyGet _)
  intro server
  cases server with
  | none => exact settles_fail _
  | some server => exact settles_pure _

theorem settles_setServer (serverName : String) (server : ManagedMcpServer) :
    Settles (setServer serverName server : ManagerM W Unit) := fun _ => id

theorem settles_takeRequestId : Settles (takeRequestId : ManagerM W JsonRpcId) :=
  settles_bind (settles_modifyGet _) fun _ =>
    settles_bind (settles_modifyGet _) fun _ => settles_pure _

theorem settles_processOf (serverName method missing : String) :
    Settles (processOf serverName method missing : ManagerM W Nat) := by
  apply settles_bind (settles_serverMut serverName)
  intro server
  cases server.process with
  | none => exact settles_fail _
  | some process => exact settles_pure _

theorem settles_resultOf (serverName method : String) (response : JsonRpcResponse T) :
    Settles (resultOf serverName method response : ManagerM W T) := by
  unfold resultOf
  split
  · exact settles_fail _
  · exact settles_fail _
  · exact settles_pure _

variable (env : Environment W) (decoders : ResponseDecoders)

theorem settles_request (decode : List UInt8 → Except SerdeError (JsonRpcResponse T))
    (serverName : String) (process : Nat) (id : JsonRpcId) (params : McpParams)
    (timeoutMs : Nat) : Settles (request env decode serverName process id params timeoutMs) := by
  apply settles_bind (settles_modifyGet _)
  intro _
  apply settles_bind (settles_modifyGet _)
  intro exchange
  cases exchange with
  | timedOut => exact settles_pure _
  | failed error => exact settles_pure _
  | frame payload => exact settles_bind (settles_modifyGet _) fun _ => settles_pure _

theorem settles_runProcessRequest (decode : List UInt8 → Except SerdeError (JsonRpcResponse T))
    (serverName : String) (process : Nat) (id : JsonRpcId) (params : McpParams)
    (timeoutMs : Nat) :
    Settles (runProcessRequest env decode serverName process id params timeoutMs) := by
  apply settles_bind (settles_request env decode serverName process id params timeoutMs)
  intro reply
  split
  · exact settles_pure _
  · split <;> exact settles_fail _
  · exact settles_fail _

theorem settles_requestResult (decode : List UInt8 → Except SerdeError (JsonRpcResponse T))
    (serverName : String) (params : McpParams) :
    Settles (requestResult env decode serverName params) :=
  settles_bind settles_takeRequestId fun _ =>
    settles_bind (settles_processOf _ _ _) fun _ =>
      settles_bind (settles_runProcessRequest env decode _ _ _ _ _) fun _ =>
        settles_resultOf _ _ _

theorem settles_shutdownProcess (process : Nat) : Settles (shutdownProcess env process) := by
  have hwait : Settles (observe (env.wait process)) := settles_modifyGet _
  apply settles_bind (settles_modifyGet _)
  intro exited
  split
  · exact settles_pure _
  · exact hwait
  · apply settles_bind (settles_modifyGet _)
    intro killed
    split
    · exact hwait
    · split
      · exact hwait
      · exact settles_pure _

theorem settles_resetServer (serverName : String) : Settles (resetServer env serverName) := by
  apply settles_bind (settles_serverMut serverName)
  intro server
  apply settles_bind (settles_setServer _ _)
  intro _
  cases server.process with
  | none => exact settles_pure _
  | some process => exact settles_bind (settles_shutdownProcess env process) fun _ => settles_pure _

theorem settles_resetIf (condition : Bool) (serverName : String) :
    Settles (resetIf env condition serverName) := by
  cases condition with
  | true => exact settles_resetServer env serverName
  | false => exact settles_pure _

theorem settles_failAfterReset (serverName : String) (error : McpServerManagerError) :
    Settles (failAfterReset env serverName error : ManagerM W α) :=
  settles_bind (settles_resetIf env _ _) fun _ => settles_fail _

theorem settles_spawnIfNeeded (serverName : String) : Settles (spawnIfNeeded env serverName) := by
  apply settles_bind (settles_serverMut serverName)
  intro server
  cases server.process with
  | some process => exact settles_pure _
  | none =>
    exact settles_bind (settles_modifyGet _) fun _ =>
      settles_bind (settles_modifyGet _) fun _ =>
        settles_bind (settles_liftIo _) fun _ =>
          settles_bind (settles_modifyGet _) fun _ => settles_setServer _ _

theorem settles_acceptHandshake (serverName : String)
    (response : JsonRpcResponse McpInitializeResult) :
    Settles (acceptHandshake env serverName response) := by
  unfold acceptHandshake
  split
  · exact settles_fail _
  · exact settles_bind (settles_resetServer env serverName) fun _ => settles_fail _
  · exact settles_bind (settles_serverMut serverName) fun _ => settles_setServer _ _

theorem settles_readyRound (serverName : String)
    {onError : McpServerManagerError → ManagerM W Unit} (h : ∀ error, Settles (onError error)) :
    Settles (readyRound env decoders serverName onError) := by
  apply settles_bind (settles_spawnIfNeeded env serverName)
  intro _
  apply settles_bind (settles_serverMut serverName)
  intro server
  split
  · exact settles_pure _
  · apply settles_bind settles_takeRequestId
    intro id
    apply settles_bind (settles_processOf _ _ _)
    intro process
    apply settles_bind (settles_attempt (settles_runProcessRequest env _ _ _ _ _ _))
    intro reply
    cases reply with
    | ok response => exact settles_acceptHandshake env serverName response
    | error error => exact h error

theorem settles_readyLoop (serverName : String) (retries : Nat) :
    Settles (readyLoop env decoders serverName retries) := by
  induction retries with
  | zero => exact settles_readyRound env decoders serverName (settles_failAfterReset env serverName)
  | succ retries ih =>
    apply settles_readyRound env decoders serverName
    intro error
    split
    · exact settles_bind (settles_resetServer env serverName) fun _ => ih
    · exact settles_failAfterReset env serverName error

theorem settles_ensureServerReady (serverName : String) :
    Settles (ensureServerReady env decoders serverName) := by
  have hexited : Settles (serverProcessExited env serverName) := by
    apply settles_bind (settles_serverMut serverName)
    intro server
    cases server.process with
    | none => exact settles_pure _
    | some process => exact settles_bind (settles_modifyGet _) fun _ => settles_liftIo _
  exact settles_bind hexited fun _ =>
    settles_bind (settles_resetIf env _ _) fun _ => settles_readyLoop env decoders serverName 1

end Pending

section Pages

variable {W A B : Type} (page : Option String → ManagerM W (List A × Option String))

/-- The cursor and the session with which the page after `n` others is asked for, if each of
them names a next one. -/
def pageAfter : (n : Nat) → Option String → Session W → Option (Option String × Session W)
  | 0, cursor, s => some (cursor, s)
  | n + 1, cursor, s =>
    match page cursor s with
    | .ok (_, some nextCursor) t => pageAfter n (some nextCursor) t
    | _ => none

def NamesNextForever (s : Session W) : Prop := ∀ n, (pageAfter page n none s).isSome = true

variable {page}

theorem pending_collectPages_iff (hpage : ∀ cursor, Settles (page cursor)) (fuel : Nat)
    (cursor : Option String) (collected : List A) (s : Session W) :
    Pending (collectPages page fuel cursor collected s) ↔
      (pageAfter page fuel cursor s).isSome = true := by
  induction fuel generalizing cursor collected s with
  | zero => exact iff_of_true trivial rfl
  | succ fuel ih =>
    have hnot := hpage cursor s
    unfold collectPages
    rw [pageAfter]
    cases hres : page cursor s with
    | error e t =>
      rw [bind_error hres]
      rw [hres] at hnot
      cases e with
      | error reason => exact iff_of_false id (by simp)
      | pending => exact absurd trivial hnot
    | ok listed t =>
      obtain ⟨items, next⟩ := listed
      rw [bind_ok hres]
      cases next with
      | none => exact iff_of_false id (by simp)
      | some nextCursor => exact ih (some nextCursor) _ t

theorem collectPages_mono {fuel more : Nat} (hle : fuel ≤ more) {cursor : Option String}
    {collected : List A} {s : Session W}
    (h : ¬Pending (collectPages page fuel cursor collected s)) :
    collectPages page more cursor collected s = collectPages page fuel cursor collected s := by
  induction fuel generalizing more cursor collected s with
  | zero => exact absurd trivial h
  | succ fuel ih =>
    obtain ⟨more, rfl⟩ : ∃ m, more = m + 1 := ⟨more - 1, by omega⟩
    unfold collectPages at h ⊢
    cases hres : page cursor s with
    | error e t => rw [bind_error hres, bind_error hres]
    | ok listed t =>
      obtain ⟨items, next⟩ := listed
      rw [bind_ok hres] at h
      rw [bind_ok hres, bind_ok hres]
      cases next with
      | none => rfl
      | some nextCursor => exact ih (Nat.le_of_succ_le_succ hle) h

end Pages

section Calls

variable {W A B : Type}

/-- The call ends: some bound is enough for it. -/
def Settled (call : Nat → ManagerM W B) (s : Session W) : Prop := ∃ fuel, ¬Pending (call fuel s)

/-- The call's result does not depend on a bound that is enough. -/
def BoundFree (call : Nat → ManagerM W B) : Prop :=
  ∀ fuel more s, fuel ≤ more → ¬Pending (call fuel s) → call more s = call fuel s

variable (env : Environment W) (decoders : ResponseDecoders) (serverName : String)

def listOnce (page : Option String → ManagerM W (List A × Option String)) (finish : List A → B)
    (fuel : Nat) : ManagerM W B := do
  ensureServerReady env decoders serverName
  let items ← collectPages page fuel none []
  pure (finish items)

theorem discoverToolsForServerOnce_eq (fuel : Nat) :
    discoverToolsForServerOnce env decoders fuel serverName =
      listOnce env decoders serverName (toolsPage env decoders serverName) id fuel := by
  unfold discoverToolsForServerOnce listOnce
  simp only [id, bind_pure]

theorem listResourcesOnce_eq (fuel : Nat) :
    listResourcesOnce env decoders fuel serverName =
      listOnce env decoders serverName (resourcesPage env decoders serverName) (⟨·, none⟩) fuel :=
  rfl

/-- The session from which an attempt starts: the call's own, or, after an attempt that may be
repeated, the one in which the server was reset. -/
def Attempt (once : Nat → ManagerM W B) (s start : Session W) : Prop :=
  start = s ∨ ∃ fuel reason t, once fuel s = .error (.error reason) t ∧
    reason.isRetryable = true ∧ resetServer env serverName t = .ok () start

variable {env decoders serverName} {page : Option String → ManagerM W (List A × Option String)}
  {finish : List A → B}

theorem pending_finish_iff (m : ManagerM W (List A)) (s : Session W) :
    Pending ((m >>= fun items => pure (finish items)) s) ↔ Pending (m s) := by
  cases hres : m s with
  | ok items t =>
    rw [bind_ok hres]
    exact Iff.rfl
  | error e t =>
    rw [bind_error hres]
    cases e <;> exact Iff.rfl

theorem pending_listOnce_iff (hpage : ∀ cursor, Settles (page cursor)) (fuel : Nat)
    (s : Session W) :
    Pending (listOnce env decoders serverName page finish fuel s) ↔
      ∃ t, ensureServerReady env decoders serverName s = .ok () t ∧
        (pageAfter page fuel none t).isSome = true := by
  have hnot := settles_ensureServerReady env decoders serverName s
  unfold listOnce
  cases hready : ensureServerReady env decoders serverName s with
  | ok _ t =>
    rw [bind_ok hready, pending_finish_iff, pending_collectPages_iff hpage]
    simp
  | error e t =>
    rw [bind_error hready]
    rw [hready] at hnot
    exact iff_of_false (fun h => hnot (by cases e <;> trivial)) (by simp)

theorem boundFree_listOnce : BoundFree (listOnce env decoders serverName page finish) := by
  intro fuel more s hle hended
  unfold listOnce at hended ⊢
  cases hready : ensureServerReady env decoders serverName s with
  | ok _ t =>
    rw [bind_ok hready, pending_finish_iff] at hended
    rw [bind_ok hready, bind_ok hready]
    have hsame := collectPages_mono hle hended
    change EStateM.bind _ _ t = EStateM.bind _ _ t
    unfold EStateM.bind
    rw [hsame]
  | error e t => rw [bind_error hready, bind_error hready]

theorem settled_listOnce_iff (hpage : ∀ cursor, Settles (page cursor)) (s : Session W) :
    Settled (listOnce env decoders serverName page finish) s ↔
      ∀ t, ensureServerReady env decoders serverName s = .ok () t →
        ¬NamesNextForever page t := by
  unfold Settled
  simp only [pending_listOnce_iff hpage, NamesNextForever, not_exists, not_and]
  constructor
  · rintro ⟨fuel, hended⟩ t hready hforever
    exact hended t hready (hforever fuel)
  · intro h
    cases hready : ensureServerReady env decoders serverName s with
    | ok _ t =>
      obtain ⟨fuel, hfuel⟩ := not_forall.mp (h t hready)
      refine ⟨fuel, ?_⟩
      rintro t' ⟨⟩
      exact hfuel
    | error e t => exact ⟨0, fun t' hok => by cases hok⟩

theorem pending_withRetry_zero {m : ManagerM W B} {s : Session W} :
    Pending (withRetry env serverName m 0 s) ↔ Pending (m s) := by
  unfold withRetry
  cases hres : m s with
  | ok a t =>
    rw [bind_ok (attempt_ok hres)]
    exact Iff.rfl
  | error e t =>
    cases e with
    | error reason =>
      rw [bind_ok (attempt_error hres)]
      exact iff_of_false (settles_failAfterReset env serverName reason t) id
    | pending =>
      rw [bind_error (attempt_pending hres)]

theorem pending_withRetry_one {m : ManagerM W B} {s : Session W} :
    Pending (withRetry env serverName m 1 s) ↔ Pending (m s) ∨
      ∃ reason t start, m s = .error (.error reason) t ∧ reason.isRetryable = true ∧
        resetServer env serverName t = .ok () start ∧ Pending (m start) := by
  unfold withRetry
  cases hres : m s with
  | ok a t =>
    rw [bind_ok (attempt_ok hres)]
    exact iff_of_false id (by simp [Pending])
  | error e t =>
    cases e with
    | pending =>
      rw [bind_error (attempt_pending hres)]
      exact iff_of_true trivial (.inl trivial)
    | error reason =>
      rw [bind_ok (attempt_error hres)]
      cases hretryable : reason.isRetryable with
      | false =>
        simp only [hretryable, Bool.false_eq_true, if_false]
        apply iff_of_false (settles_failAfterReset env serverName reason t)
        rintro (hpend | ⟨reason', t', start, heq, hretryable', -⟩)
        · exact hpend
        · cases heq
          simp [hretryable] at hretryable'
      | true =>
        simp only [hretryable, if_true]
        have hnot := settles_resetServer env serverName t
        cases hreset : resetServer env serverName t with
        | error e u =>
          rw [bind_error hreset]
          rw [hreset] at hnot
          apply iff_of_false (fun h => hnot (by cases e <;> trivial))
          rintro (hpend | ⟨reason', t', start, heq, -, hreset', -⟩)
          · exact hpend
          · cases heq
            rw [hreset] at hreset'
            cases hreset'
        | ok _ start =>
          rw [bind_ok hreset, pending_withRetry_zero]
          constructor
          · exact fun hpend => .inr ⟨reason, t, start, rfl, hretryable, hreset, hpend⟩
          · rintro (hpend | ⟨reason', t', start', heq, -, hreset', hpend⟩)
            · exact absurd hpend id
            · cases heq
              rw [hreset] at hreset'
              cases hreset'
              exact hpend

theorem settled_withRetry_iff {once : Nat → ManagerM W B} (honce : BoundFree once)
    (s : Session W) :
    Settled (fun fuel => withRetry env serverName (once fuel) 1) s ↔
      ∀ start, Attempt env serverName once s start → Settled once start := by
  constructor
  · rintro ⟨fuel, hended⟩ start hattempt
    rw [pending_withRetry_one] at hended
    push Not at hended
    obtain ⟨hfirst, hsecond⟩ := hended
    rcases hattempt with rfl | ⟨fuel', reason, t, hfailed, hretryable, hreset⟩
    · exact ⟨fuel, hfirst⟩
    · have hended' : ¬Pending (once fuel' s) := by
        rw [hfailed]
        exact id
      have hsame := (honce fuel (max fuel fuel') s (le_max_left _ _) hfirst).symm.trans
        (honce fuel' (max fuel fuel') s (le_max_right _ _) hended')
      exact ⟨fuel, hsecond reason t start (hsame.trans hfailed) hretryable hreset⟩
  · intro h
    obtain ⟨fuel, hfirst⟩ := h s (.inl rfl)
    by_cases hretry : ∃ reason t start, once fuel s = .error (.error reason) t ∧
        reason.isRetryable = true ∧ resetServer env serverName t = .ok () start
    · obtain ⟨reason, t, start, hfailed, hretryable, hreset⟩ := hretry
      obtain ⟨fuel', hsecond⟩ := h start (.inr ⟨fuel, reason, t, hfailed, hretryable, hreset⟩)
      refine ⟨max fuel fuel', ?_⟩
      have hfirst' := honce fuel (max fuel fuel') s (le_max_left _ _) hfirst
      have hsecond' := honce fuel' (max fuel fuel') start (le_max_right _ _) hsecond
      rw [pending_withRetry_one, hfirst']
      rintro (hpend | ⟨reason', t', start', hfailed', -, hreset', hpend⟩)
      · exact hfirst hpend
      · rw [hfailed] at hfailed'
        cases hfailed'
        rw [hreset] at hreset'
        cases hreset'
        rw [hsecond'] at hpend
        exact hsecond hpend
    · refine ⟨fuel, ?_⟩
      rw [pending_withRetry_one]
      rintro (hpend | ⟨reason, t, start, hfailed, hretryable, hreset, -⟩)
      · exact hfirst hpend
      · exact hretry ⟨reason, t, start, hfailed, hretryable, hreset⟩

end Calls

section Listings

variable {W : Type} (env : Environment W) (decoders : ResponseDecoders) (serverName : String)

theorem settles_toolsPage (cursor : Option String) :
    Settles (toolsPage env decoders serverName cursor) :=
  settles_bind (settles_requestResult env _ _ _) fun _ => settles_pure _

theorem settles_resourcesPage (cursor : Option String) :
    Settles (resourcesPage env decoders serverName cursor) :=
  settles_bind (settles_requestResult env _ _ _) fun _ => settles_pure _

theorem settled_discoverTools_iff (s : Session W) :
    Settled (fun fuel => discoverToolsForServer env decoders fuel serverName) s ↔
      ∀ start, Attempt env serverName (fun fuel =>
          discoverToolsForServerOnce env decoders fuel serverName) s start →
        ∀ ready, ensureServerReady env decoders serverName start = .ok () ready →
          ¬NamesNextForever (toolsPage env decoders serverName) ready := by
  unfold discoverToolsForServer
  simp only [discoverToolsForServerOnce_eq]
  rw [settled_withRetry_iff boundFree_listOnce]
  simp only [settled_listOnce_iff (settles_toolsPage env decoders serverName)]

theorem settled_listResources_iff (s : Session W) :
    Settled (fun fuel => listResources env decoders fuel serverName) s ↔
      ∀ start, Attempt env serverName (fun fuel =>
          listResourcesOnce env decoders fuel serverName) s start →
        ∀ ready, ensureServerReady env decoders serverName start = .ok () ready →
          ¬NamesNextForever (resourcesPage env decoders serverName) ready := by
  unfold listResources
  simp only [listResourcesOnce_eq]
  rw [settled_withRetry_iff boundFree_listOnce]
  simp only [settled_listOnce_iff (settles_resourcesPage env decoders serverName)]

/-- A listing ends after finitely many requests exactly if in none of its attempts every reply
names a next page. -/
theorem listings_end_iff (s : Session W) :
    (Settled (fun fuel => discoverToolsForServer env decoders fuel serverName) s ↔
      ∀ start, Attempt env serverName (fun fuel =>
          discoverToolsForServerOnce env decoders fuel serverName) s start →
        ∀ ready, ensureServerReady env decoders serverName start = .ok () ready →
          ¬NamesNextForever (toolsPage env decoders serverName) ready) ∧
    (Settled (fun fuel => listResources env decoders fuel serverName) s ↔
      ∀ start, Attempt env serverName (fun fuel =>
          listResourcesOnce env decoders fuel serverName) s start →
        ∀ ready, ensureServerReady env decoders serverName start = .ok () ready →
          ¬NamesNextForever (resourcesPage env decoders serverName) ready) :=
  ⟨settled_discoverTools_iff env decoders serverName s,
    settled_listResources_iff env decoders serverName s⟩

end Listings

section Repeating

def repeatedTools : List Char := "\x7b\"tools\":[],\"nextCursor\":\"again\"\x7d".toList

def repeatedResources : List Char :=
  "\x7b\"resources\":[],\"nextCursor\":\"again\"\x7d".toList

/-- The server answers every request, at once and with its id. -/
def repeating : Environment Unit where
  spawn _ _ world := (.ok (), world)
  tryWait _ world := (.ok false, world)
  kill _ world := (.ok (), world)
  wait _ world := (.ok (), world)
  exchange _ request _ world :=
    let result :=
      if request.method = "tools/list" then repeatedTools
      else if request.method = "resources/list" then repeatedResources
      else handshakeText
    match request.id with
    | .number id => (.frame (encodeUtf8 (responseText result id)), world)
    | _ => (.frame [], world)
  nowSecs world := (0, world)

def repeatingDecoders : ResponseDecoders where
  handshake := decodeText handshakeText ⟨"2025-03-26", .object [], ⟨"alpha", "1.0"⟩⟩
  listTools := decodeText repeatedTools ⟨[], some "again"⟩
  callTool _ := .error ⟨"missing field \x60content\x60"⟩
  listResources := decodeText repeatedResources ⟨[], some "again"⟩
  readResource _ := .error ⟨"missing field \x60contents\x60"⟩

theorem namesNextForever_of_pages {A : Type}
    {page : Option String → ManagerM Unit (List A × Option String)} {Reached : Session Unit → Prop}
    (hpage : ∀ cursor s, Reached s → ∃ items nextCursor t,
      page cursor s = .ok (items, some nextCursor) t ∧ Reached t)
    {s : Session Unit} (hs : Reached s) : NamesNextForever page s := by
  intro n
  have hall : ∀ cursor s, Reached s → (pageAfter page n cursor s).isSome = true := by
    induction n with
    | zero => exact fun _ _ _ => rfl
    | succ n ih =>
      intro cursor s hs
      obtain ⟨items, nextCursor, t, hok, ht⟩ := hpage cursor s hs
      rw [pageAfter, hok]
      exact ih _ _ ht
  exact hall none s hs

def AlphaReady (s : Session Unit) : Prop := s.manager.servers.get "alpha" = some readyServer

theorem exchange_listTools (process : Nat) (id : UInt64) (cursor : Option String)
    (timeoutMs : Nat) (world : Unit) :
    repeating.exchange process (numbered id (.listTools cursor)) timeoutMs world =
      (.frame (encodeUtf8 (responseText repeatedTools id)), world) := by
  simp only [repeating, numbered, JsonRpcRequest.new, McpParams.method, if_true]

theorem exchange_listResources (process : Nat) (id : UInt64) (cursor : Option String)
    (timeoutMs : Nat) (world : Unit) :
    repeating.exchange process (numbered id (.listResources cursor)) timeoutMs world =
      (.frame (encodeUtf8 (responseText repeatedResources id)), world) := by
  have hmethod : ("resources/list" : String) ≠ "tools/list" := by decide
  simp only [repeating, numbered, JsonRpcRequest.new, McpParams.method, if_true, if_neg hmethod]

theorem decode_listTools (id : UInt64) :
    repeatingDecoders.listTools (encodeUtf8 (responseText repeatedTools id)) =
      .ok ⟨"2.0", .number id, some ⟨[], some "again"⟩, none⟩ := by
  simp only [repeatingDecoders, decodeText_responseText]

theorem decode_listResources (id : UInt64) :
    repeatingDecoders.listResources (encodeUtf8 (responseText repeatedResources id)) =
      .ok ⟨"2.0", .number id, some ⟨[], some "again"⟩, none⟩ := by
  simp only [repeatingDecoders, decodeText_responseText]

theorem toolsPage_repeating (cursor : Option String) {s : Session Unit} (hs : AlphaReady s) :
    ∃ items nextCursor t, toolsPage repeating repeatingDecoders "alpha" cursor s =
      .ok (items, some nextCursor) t ∧ AlphaReady t := by
  have hres : requestResult repeating repeatingDecoders.listTools "alpha" (.listTools cursor) s =
      .ok ⟨[], some "again"⟩ _ :=
    requestResult_of_frame repeating hs rfl (exchange_listTools _ _ _ _ _) (decode_listTools _)
  exact ⟨_, _, _, bind_ok hres, hs⟩

theorem resourcesPage_repeating (cursor : Option String) {s : Session Unit} (hs : AlphaReady s) :
    ∃ items nextCursor t, resourcesPage repeating repeatingDecoders "alpha" cursor s =
      .ok (items, some nextCursor) t ∧ AlphaReady t := by
  have hres : requestResult repeating repeatingDecoders.listResources "alpha"
      (.listResources cursor) s = .ok ⟨[], some "again"⟩ _ :=
    requestResult_of_frame repeating hs rfl (exchange_listResources _ _ _ _ _) (decode_listResources _)
  exact ⟨_, _, _, bind_ok hres, hs⟩

/-- Every request is answered, and no bound is enough for a listing. -/
theorem repeating_never_settles :
    (∀ process request timeoutMs, ∃ payload,
      (repeating.exchange process request timeoutMs ()).1 = .frame payload) ∧
    ¬Settled (fun fuel => discoverToolsForServer repeating repeatingDecoders fuel "alpha")
      (alphaSession readyServer KeyMap.empty 2 1 []) ∧
    ¬Settled (fun fuel => listResources repeating repeatingDecoders fuel "alpha")
      (alphaSession readyServer KeyMap.empty 2 1 []) := by
  have hready : AlphaReady (alphaSession readyServer KeyMap.empty 2 1 []) :=
    get_alpha readyServer KeyMap.empty 2
  have hensured : ensureServerReady repeating repeatingDecoders "alpha"
      (alphaSession readyServer KeyMap.empty 2 1 []) =
        .ok () (alphaSession readyServer KeyMap.empty 2 1 []) :=
    ensureServerReady_of_ready repeating hready rfl rfl rfl
  refine ⟨?_, ?_, ?_⟩
  · intro process request timeoutMs
    cases hid : request.id <;> simp [repeating, hid]
  · intro hsettled
    exact (settled_discoverTools_iff repeating repeatingDecoders "alpha" _).mp hsettled _
      (.inl rfl) _ hensured (namesNextForever_of_pages (fun cursor _ => toolsPage_repeating cursor)
        hready)
  · intro hsettled
    exact (settled_listResources_iff repeating repeatingDecoders "alpha" _).mp hsettled _
      (.inl rfl) _ hensured
        (namesNextForever_of_pages (fun cursor _ => resourcesPage_repeating cursor) hready)

end Repeating

end DbClinic.Mcp
