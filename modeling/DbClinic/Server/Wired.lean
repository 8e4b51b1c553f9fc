import DbClinic.Server.Frame

/-!
The invariant every reachable kernel satisfies: references are below the
counter, a runtime and its executor hold the objects they were built with, and
handles and workers point to entries that exist. The steps outside the actor's
commands are summed up by what they keep.
-/

namespace DbClinic.Server

open DbClinic.Runtime Persistence Function

theorem update_eq_some {α β : Type} [DecidableEq α] {f : α → Option β} {a x : α} {b : Option β}
    {c : β} (h : Function.update f a b x = some c) :
    (x = a ∧ b = some c) ∨ (x ≠ a ∧ f x = some c) := by
  rcases eq_or_ne x a with rfl | hne
  · rw [update_self] at h
    exact .inl ⟨rfl, h⟩
  · rw [update_of_ne hne] at h
    exact .inr ⟨hne, h⟩

/-- The steps that change the session maps or build an entry. -/
def Action.isCommand : Action → Bool
  | .create _ _ | .resume _ _ | .runTurnStreaming _ _ _ | .remove _ | .restart => true
  | _ => false

/-- The steps of the calls that bypass the actor, and of the world outside. -/
def Action.isAside : Action → Bool
  | .turn _ _ => false
  | a => !a.isCommand

theorem Action.not_command {a : Action} (h : a.isAside = true) : a.isCommand = false := by
  cases a <;> first | rfl | cases h

@[elab_as_elim]
theorem Action.byKind {motive : Action → Prop}
    (create : ∀ req stamps, motive (.create req stamps))
    (resume : ∀ req stamps, motive (.resume req stamps))
    (runTurnStreaming : ∀ sid text ctx, motive (.runTurnStreaming sid text ctx))
    (remove : ∀ sid, motive (.remove sid))
    (restart : motive .restart)
    (turn : ∀ w act, motive (.turn w act))
    (aside : ∀ a : Action, a.isAside = true → motive a) (a : Action) : motive a := by
  cases a with
  | create req stamps => exact create req stamps
  | resume req stamps => exact resume req stamps
  | runTurnStreaming sid text ctx => exact runTurnStreaming sid text ctx
  | remove sid => exact remove sid
  | restart => exact restart
  | turn w act => exact turn w act
  | _ => exact aside _ rfl

/-- What a step that is no command keeps. -/
structure Quiet (k k' : Kernel) : Prop where
  sessions : k'.sessions = k.sessions
  shared : k'.shared = k.shared
  next : k.next ≤ k'.next
  entries : ∀ r, (k'.entries r).map SessionEntry.wiring = (k.entries r).map SessionEntry.wiring
  workers : ∀ w worker', k'.workers w = some worker' → ∃ worker, k.workers w = some worker ∧
    worker'.sessionId = worker.sessionId ∧ worker'.entry = worker.entry ∧
    (worker'.phase.unfinished = true → worker.phase.unfinished = true)

/-- What a step that is neither a command nor a worker's keeps. -/
structure Aside (k k' : Kernel) : Prop where
  sessions : k'.sessions = k.sessions
  shared : k'.shared = k.shared
  next : k.next ≤ k'.next
  entries : k'.entries = k.entries
  workers : k'.workers = k.workers

theorem Aside.quiet {k k' : Kernel} (h : Aside k k') : Quiet k k' := by
  refine ⟨h.sessions, h.shared, h.next, fun r => by rw [h.entries], fun w worker hw => ?_⟩
  rw [h.workers] at hw
  exact ⟨worker, hw, rfl, rfl, id⟩

theorem Aside.trans {k₁ k₂ k₃ : Kernel} (h : Aside k₁ k₂) (h' : Aside k₂ k₃) : Aside k₁ k₃ :=
  ⟨h'.sessions.trans h.sessions, h'.shared.trans h.shared, h.next.trans h'.next,
    h'.entries.trans h.entries, h'.workers.trans h.workers⟩

namespace Kernel

variable {k k' : Kernel}

variable {w : Nat} {act : TurnAct} {worker : Worker} {v : TurnView} {a : Action}

theorem turn_cases (h : k.turn w act = some k') :
    ∃ worker entry v', k.workers w = some worker ∧ k.entries worker.entry = some entry ∧
      TurnView.Effect (k.view worker entry) w worker k.flags k.tokens act v' ∧
      k' = k.put w worker v' := by
  unfold turn at h
  split at h
  · cases h
  · rename_i worker hworker
    split at h
    · cases h
    · rename_i entry hentry
      obtain ⟨v', hstep, rfl⟩ := Option.map_eq_some_iff.mp h
      exact ⟨worker, entry, v', hworker, hentry, TurnView.step_effect hstep, rfl⟩

theorem put_worker {w' : Nat} {x : Worker} (h : (k.put w worker v).workers w' = some x) :
    (w' = w ∧ x = { worker with phase := v.phase }) ∨ (w' ≠ w ∧ k.workers w' = some x) := by
  rcases update_eq_some h with ⟨hw, hx⟩ | hold
  · exact .inl ⟨hw, (Option.some.inj hx).symm⟩
  · exact .inr hold

theorem put_entry {r : Nat} {e : SessionEntry} (h : (k.put w worker v).entries r = some e) :
    (r = worker.entry ∧ e = v.entry) ∨ (r ≠ worker.entry ∧ k.entries r = some e) := by
  rcases update_eq_some h with ⟨hr, he⟩ | hold
  · exact .inl ⟨hr, (Option.some.inj he).symm⟩
  · exact .inr hold

theorem turn_quiet (h : k.turn w act = some k') : Quiet k k' := by
  obtain ⟨worker, entry, v', hworker, hentry, heffect, rfl⟩ := turn_cases h
  refine ⟨rfl, rfl, heffect.next, fun r => ?_, fun w' worker' hw' => ?_⟩
  · change (Function.update k.entries worker.entry (some v'.entry) r).map _ = _
    by_cases hr : r = worker.entry
    · have hwiring := heffect.wiring
      subst hr
      rw [update_self, hentry]
      exact congrArg some hwiring
    · rw [update_of_ne hr]
  · rcases put_worker hw' with ⟨rfl, rfl⟩ | ⟨-, hold⟩
    · exact ⟨worker, hworker, rfl, rfl, heffect.unfinished⟩
    · exact ⟨worker', hold, rfl, rfl, id⟩

theorem step_aside (h : k.step a = some k') (ha : a.isAside = true) :
    Aside k k' := by
  cases a with
  | create _ _ => cases ha
  | resume _ _ => cases ha
  | runTurnStreaming _ _ _ => cases ha
  | remove _ => cases ha
  | restart => cases ha
  | turn _ _ => cases ha
  | cancelCall sid =>
    cases h
    unfold cancelCall
    split
    · exact ⟨rfl, rfl, Nat.le_refl _, rfl, rfl⟩
    · exact ⟨rfl, rfl, Nat.le_succ _, rfl, rfl⟩
  | cancelStore c =>
    simp only [step, cancelStore] at h
    split at h <;> cases h
    exact ⟨rfl, rfl, Nat.le_refl _, rfl, rfl⟩
  | cancelToken c =>
    simp only [step, cancelToken] at h
    split at h <;> cases h
    exact ⟨rfl, rfl, Nat.le_refl _, rfl, rfl⟩
  | deliverCall sid iid payload =>
    cases h
    unfold deliverCall
    split
    · exact ⟨rfl, rfl, Nat.le_refl _, rfl, rfl⟩
    · exact ⟨rfl, rfl, Nat.le_succ _, rfl, rfl⟩
  | deliverTake d =>
    simp only [step, deliverTake] at h
    split at h
    · split at h <;> cases h <;> exact ⟨rfl, rfl, Nat.le_refl _, rfl, rfl⟩
    · cases h
  | deliverSend d =>
    simp only [step, deliverSend] at h
    split at h <;> cases h
    exact ⟨rfl, rfl, Nat.le_refl _, rfl, rfl⟩
  | receive c =>
    cases h
    exact ⟨rfl, rfl, Nat.le_refl _, rfl, rfl⟩
  | dropReceivers c =>
    cases h
    exact ⟨rfl, rfl, Nat.le_refl _, rfl, rfl⟩
  | changeDisk disk =>
    cases h
    exact ⟨rfl, rfl, Nat.le_refl _, rfl, rfl⟩

theorem step_quiet (h : k.step a = some k') (ha : a.isCommand = false) :
    Quiet k k' := by
  cases a using Action.byKind with
  | create _ _ => cases ha
  | resume _ _ => cases ha
  | runTurnStreaming _ _ _ => cases ha
  | remove _ => cases ha
  | restart => cases ha
  | turn w act => exact turn_quiet h
  | aside a haside => exact (step_aside h haside).quiet

end Kernel

variable {k k' : Kernel}

variable {r : Nat} {sid text : String} {ctx : Option String}

theorem Quiet.entry {e' : SessionEntry} (h : Quiet k k') (he' : k'.entries r = some e') :
    ∃ e, k.entries r = some e ∧ e'.wiring = e.wiring := by
  have hmap := h.entries r
  rw [he', Option.map_some, eq_comm, Option.map_eq_some_iff] at hmap
  obtain ⟨e, he, hwiring⟩ := hmap
  exact ⟨e, he, hwiring.symm⟩

theorem Quiet.entry' {e : SessionEntry} (h : Quiet k k') (he : k.entries r = some e) :
    ∃ e', k'.entries r = some e' ∧ e'.wiring = e.wiring := by
  have hmap := h.entries r
  rw [he, Option.map_some, Option.map_eq_some_iff] at hmap
  exact hmap

/-- The wiring of an entry built under the reference `r`. -/
structure BuiltAt (r : Nat) (x : Wiring) : Prop where
  executorId : x.executorId = x.sessionId
  pending : x.pending = r
  executorFlag : x.executorFlag = r
  executorToken : x.executorToken = r
  runtimeFlag : x.runtimeFlag = r
  runtimeToken : x.runtimeToken = r

structure Wired (k : Kernel) : Prop where
  entry : ∀ r e, k.entries r = some e → r < k.next ∧ BuiltAt r e.wiring
  handle : ∀ sid h, k.sessions sid = some h →
    (∃ e, k.entries h.entry = some e) ∧ h.cancelFlag = h.entry ∧ h.msgCount = h.entry ∧
      h.cancelToken < k.next
  shared : ∀ sid s, k.shared sid = some s →
    s.pendingProxy < k.next ∧ s.cancelFlag < k.next ∧ s.cancelToken < k.next
  worker : ∀ w worker, k.workers w = some worker →
    w < k.next ∧ ∃ e, k.entries worker.entry = some e

theorem Quiet.wired (h : Quiet k k') (hk : Wired k) : Wired k' := by
  have hnext := h.next
  constructor
  · intro r e' he'
    obtain ⟨e, he, hwiring⟩ := h.entry he'
    obtain ⟨hlt, hbuilt⟩ := hk.entry r e he
    rw [hwiring]
    exact ⟨by omega, hbuilt⟩
  · intro sid handle hhandle
    rw [h.sessions] at hhandle
    obtain ⟨⟨e, he⟩, hflag, hcount, htoken⟩ := hk.handle sid handle hhandle
    obtain ⟨e', he', -⟩ := h.entry' he
    exact ⟨⟨e', he'⟩, hflag, hcount, by omega⟩
  · intro sid s hs
    rw [h.shared] at hs
    obtain ⟨hpend, hflag, htoken⟩ := hk.shared sid s hs
    exact ⟨by omega, by omega, by omega⟩
  · intro w worker' hworker'
    obtain ⟨worker, hworker, -, hentry, -⟩ := h.workers w worker' hworker'
    obtain ⟨hlt, e, he⟩ := hk.worker w worker hworker
    obtain ⟨e', he', -⟩ := h.entry' he
    exact ⟨by omega, e', hentry ▸ he'⟩

namespace Kernel

theorem wired_start (disk : SessionTree) (backend : SessionBackend) :
    Wired (start disk backend) :=
  ⟨by simp [start], by simp [start], by simp [start], by simp [start]⟩

theorem newEntry_builtAt (r : Nat) (session : Session) (maxIterations : Option Nat)
    (channels : Nat) : BuiltAt r (newEntry r session maxIterations channels).wiring :=
  ⟨rfl, rfl, rfl, rfl, rfl, rfl⟩

theorem install_entries (k : Kernel) (key : String) (session : Session) (record : SessionRecord)
    (maxIterations : Option Nat) (channels : Nat) (msgCount : Nat) (stamps : SaveStamps) :
    (k.install key session record maxIterations channels msgCount stamps).entries =
      Function.update k.entries k.next (some (newEntry k.next session maxIterations channels)) :=
  rfl

theorem install_wired (hk : Wired k) (key : String) (session : Session) (record : SessionRecord)
    (maxIterations : Option Nat) (channels : Nat) (msgCount : Nat) (stamps : SaveStamps) :
    Wired (k.install key session record maxIterations channels msgCount stamps) := by
  have hold : ∀ r e, k.entries r = some e → Function.update k.entries k.next
      (some (newEntry k.next session maxIterations channels)) r = some e := by
    intro r e he
    have hlt := (hk.entry r e he).1
    rw [update_of_ne (by omega), he]
  constructor
  · intro r e he
    rw [install_entries] at he
    change r < k.next + 1 ∧ _
    rcases update_eq_some he with ⟨rfl, hnew⟩ | ⟨-, he⟩
    · cases hnew
      exact ⟨by omega, newEntry_builtAt _ _ _ _⟩
    · obtain ⟨hlt, hbuilt⟩ := hk.entry r e he
      exact ⟨by omega, hbuilt⟩
  · intro sid handle hhandle
    change Function.update k.sessions key (some ⟨k.next, session.createdAtMs, _, _, _⟩) sid = _
      at hhandle
    change (∃ e, Function.update k.entries k.next _ handle.entry = some e) ∧ _ ∧ _ ∧
      _ < k.next + 1
    rcases update_eq_some hhandle with ⟨rfl, hnew⟩ | ⟨-, hhandle⟩
    · cases hnew
      exact ⟨⟨_, update_self _ _ _⟩, rfl, rfl, Nat.lt_succ_self _⟩
    · obtain ⟨⟨e, he⟩, hflag, hcount, htoken⟩ := hk.handle sid handle hhandle
      exact ⟨⟨e, hold _ e he⟩, hflag, hcount, by omega⟩
  · intro sid s hs
    change Function.update k.shared session.sessionId (some ⟨k.next, k.next, k.next⟩) sid = _ at hs
    change _ < k.next + 1 ∧ _ < k.next + 1 ∧ _ < k.next + 1
    rcases update_eq_some hs with ⟨rfl, hnew⟩ | ⟨-, hs⟩
    · cases hnew
      exact ⟨Nat.lt_succ_self _, Nat.lt_succ_self _, Nat.lt_succ_self _⟩
    · obtain ⟨hpend, hflag, htoken⟩ := hk.shared sid s hs
      exact ⟨by omega, by omega, by omega⟩
  · intro w worker hworker
    obtain ⟨hlt, e, he⟩ := hk.worker w worker hworker
    change w < k.next + 1 ∧ ∃ e, Function.update k.entries k.next _ worker.entry = some e
    exact ⟨by omega, e, hold _ e he⟩

theorem withDisk_wired (hk : Wired k) (disk : SessionTree) : Wired { k with disk } :=
  ⟨hk.entry, hk.handle, hk.shared, hk.worker⟩

theorem runTurnStreaming_wired (hk : Wired k) (sid text : String) (ctx : Option String) :
    Wired (k.runTurnStreaming sid text ctx) := by
  unfold runTurnStreaming
  split
  · exact hk
  rename_i handle hhandle
  obtain ⟨hentry, hflag, hcount, htoken⟩ := hk.handle sid handle hhandle
  constructor
  · intro r e he
    obtain ⟨hlt, hbuilt⟩ := hk.entry r e he
    exact ⟨Nat.lt_succ_of_lt hlt, hbuilt⟩
  · intro sid' handle' hhandle'
    change Function.update k.sessions sid _ sid' = _ at hhandle'
    change _ ∧ _ ∧ _ ∧ _ < k.next + 1
    rcases update_eq_some hhandle' with ⟨rfl, hnew⟩ | ⟨-, hhandle'⟩
    · cases hnew
      exact ⟨hentry, hflag, hcount, Nat.lt_succ_self _⟩
    · obtain ⟨hentry', hflag', hcount', htoken'⟩ := hk.handle sid' handle' hhandle'
      exact ⟨hentry', hflag', hcount', by omega⟩
  · intro sid' s hs
    change Function.update k.shared sid _ sid' = _ at hs
    change _ < k.next + 1 ∧ _ < k.next + 1 ∧ _ < k.next + 1
    by_cases hsid : sid' = sid
    · subst hsid
      rw [update_self, Option.map_eq_some_iff] at hs
      obtain ⟨s₀, hs₀, rfl⟩ := hs
      obtain ⟨hpend, hflag', -⟩ := hk.shared sid' s₀ hs₀
      exact ⟨by dsimp only; omega, by dsimp only; omega, by dsimp only; omega⟩
    · rw [update_of_ne hsid] at hs
      obtain ⟨hpend, hflag', htoken'⟩ := hk.shared sid' s hs
      exact ⟨by omega, by omega, by omega⟩
  · intro w worker hworker
    change Function.update k.workers k.next _ w = _ at hworker
    change w < k.next + 1 ∧ _
    rcases update_eq_some hworker with ⟨rfl, hnew⟩ | ⟨-, hworker⟩
    · cases hnew
      exact ⟨by omega, hentry⟩
    · obtain ⟨hlt, he⟩ := hk.worker w worker hworker
      exact ⟨by omega, he⟩

theorem remove_wired (hk : Wired k) (sid : String) : Wired (k.remove sid) := by
  refine ⟨hk.entry, fun sid' handle h => ?_, fun sid' s h => ?_, hk.worker⟩
  · change Function.update k.sessions sid none sid' = _ at h
    rcases update_eq_some h with ⟨rfl, hnew⟩ | ⟨-, h⟩
    · cases hnew
    · exact hk.handle sid' handle h
  · change Function.update k.shared sid none sid' = _ at h
    rcases update_eq_some h with ⟨rfl, hnew⟩ | ⟨-, h⟩
    · cases hnew
    · exact hk.shared sid' s h

variable {req : ResumeRequest} {handle : SessionHandle}

theorem resume_live (h : k.sessions req.sessionId = some handle) (stamps : CommandStamps) :
    (k.resume req stamps).1 = k := by
  unfold resume
  rw [h]

theorem resume_live_reply (h : k.sessions req.sessionId = some handle) (stamps : CommandStamps) :
    (k.resume req stamps).2.1 = req.sessionId := by
  unfold resume
  rw [h]

theorem resume_reply (h : k.sessions req.sessionId = none) (stamps : CommandStamps) :
    (k.resume req stamps).2.1 = (resumedSession k.disk req stamps).1.sessionId := by
  unfold resume
  rw [h]

theorem resume_builds (h : k.sessions req.sessionId = none) (stamps : CommandStamps) :
    ∃ record, (k.resume req stamps).1 =
      { k with disk := (resumedSession k.disk req stamps).2 }.install req.sessionId
        (resumedSession k.disk req stamps).1 record req.maxIterations req.channels
        (resumedSession k.disk req stamps).1.messages.length stamps.bootstrap := by
  unfold resume
  rw [h]
  exact ⟨_, rfl⟩

theorem resumedSession_path (disk : SessionTree) (req : ResumeRequest) (stamps : CommandStamps) :
    (resumedSession disk req stamps).1.persistencePath =
      some (resumePath req) := by
  unfold resumedSession
  rcases hload : loadRequested disk req stamps with e | session
  · rfl
  · change session.persistencePath = some (resumePath req)
    exact Session.loadFromPath_path hload

theorem resume_wired (hk : Wired k) (req : ResumeRequest) (stamps : CommandStamps) :
    Wired (k.resume req stamps).1 := by
  rcases hsession : k.sessions req.sessionId with - | handle
  · obtain ⟨record, hbuilt⟩ := resume_builds hsession stamps
    rw [hbuilt]
    exact install_wired (withDisk_wired hk _) ..
  · rw [resume_live hsession stamps]
    exact hk

theorem step_wired {a : Action} (h : k.step a = some k') (hk : Wired k) : Wired k' := by
  cases a using Action.byKind with
  | create req stamps =>
    cases h
    exact install_wired (withDisk_wired hk _) ..
  | resume req stamps =>
    cases h
    exact resume_wired hk req stamps
  | runTurnStreaming sid text ctx =>
    cases h
    exact runTurnStreaming_wired hk sid text ctx
  | remove sid =>
    cases h
    exact remove_wired hk sid
  | restart =>
    cases h
    exact ⟨by simp [restart, start], by simp [restart, start], by simp [restart, start],
      by simp [restart, start]⟩
  | turn w act => exact (turn_quiet h).wired hk
  | aside a haside => exact (step_aside h haside).quiet.wired hk

end Kernel

theorem Kernel.runTurnStreaming_shared {k : Kernel} {sid' : String} {s : SharedSessionState}
    (h : (k.runTurnStreaming sid text ctx).shared sid' = some s) :
    ∃ old, k.shared sid' = some old ∧ s.pendingProxy = old.pendingProxy ∧
      s.cancelFlag = old.cancelFlag := by
  unfold Kernel.runTurnStreaming at h
  split at h
  · exact ⟨s, h, rfl, rfl⟩
  · change Function.update k.shared sid _ sid' = _ at h
    rcases eq_or_ne sid' sid with rfl | hne
    · rw [update_self, Option.map_eq_some_iff] at h
      obtain ⟨old, hold, rfl⟩ := h
      exact ⟨old, hold, rfl, rfl⟩
    · rw [update_of_ne hne] at h
      exact ⟨s, h, rfl, rfl⟩

theorem Kernel.runTurnStreaming_entries (k : Kernel) (sid text : String) (ctx : Option String) :
    (k.runTurnStreaming sid text ctx).entries = k.entries := by
  unfold Kernel.runTurnStreaming
  split <;> rfl

theorem Kernel.runTurnStreaming_next (k : Kernel) (sid text : String) (ctx : Option String) :
    k.next ≤ (k.runTurnStreaming sid text ctx).next := by
  unfold Kernel.runTurnStreaming
  split
  · exact Nat.le_refl _
  · exact Nat.le_succ _

theorem Kernel.runTurnStreaming_worker {k : Kernel} {w : Nat} {worker : Worker}
    (h : (k.runTurnStreaming sid text ctx).workers w = some worker) :
    k.workers w = some worker ∨ (w = k.next ∧ worker.phase = .queued) := by
  unfold Kernel.runTurnStreaming at h
  split at h
  · exact .inl h
  · change Function.update k.workers k.next _ w = _ at h
    rcases update_eq_some h with ⟨rfl, hnew⟩ | ⟨-, h⟩
    · cases hnew
      exact .inr ⟨rfl, rfl⟩
    · exact .inl h

/-- Each entry works for one session id: the key it was installed under. -/
structure OwnedBy (owner : Nat → String) (k : Kernel) : Prop where
  handle : ∀ sid handle, k.sessions sid = some handle → owner handle.entry = sid
  worker : ∀ w worker, k.workers w = some worker → owner worker.entry = worker.sessionId

variable {owner : Nat → String}

theorem OwnedBy.quiet {k k' : Kernel} (h : OwnedBy owner k) (hq : Quiet k k') :
    OwnedBy owner k' := by
  refine ⟨?_, fun w worker' hworker' => ?_⟩
  · rw [hq.sessions]
    exact h.handle
  · obtain ⟨worker, hworker, hsid, hentry, -⟩ := hq.workers w worker' hworker'
    rw [hsid, hentry]
    exact h.worker w worker hworker

theorem OwnedBy.install {k : Kernel} (hk : Wired k) (h : OwnedBy owner k) (key : String)
    (session : Session) (record : SessionRecord) (maxIterations : Option Nat)
    (channels msgCount : Nat) (stamps : SaveStamps) :
    OwnedBy (Function.update owner k.next key)
      (k.install key session record maxIterations channels msgCount stamps) := by
  refine ⟨fun sid handle hhandle => ?_, fun w worker hworker => ?_⟩
  · change Function.update k.sessions key (some ⟨k.next, _, _, _, _⟩) sid = _ at hhandle
    rcases update_eq_some hhandle with ⟨rfl, hnew⟩ | ⟨-, hhandle⟩
    · cases hnew
      exact update_self ..
    · obtain ⟨⟨e, he⟩, -⟩ := hk.handle sid handle hhandle
      have hlt := (hk.entry _ e he).1
      rw [update_of_ne (by omega)]
      exact h.handle sid handle hhandle
  · obtain ⟨-, e, he⟩ := hk.worker w worker hworker
    have hlt := (hk.entry _ e he).1
    rw [update_of_ne (by omega)]
    exact h.worker w worker hworker

theorem OwnedBy.runTurnStreaming {k : Kernel} (h : OwnedBy owner k) (sid text : String)
    (ctx : Option String) : OwnedBy owner (k.runTurnStreaming sid text ctx) := by
  unfold Kernel.runTurnStreaming
  split
  · exact h
  rename_i old hold
  have howner := h.handle sid old hold
  refine ⟨fun sid' handle hhandle => ?_, fun w worker hworker => ?_⟩
  · change Function.update k.sessions sid _ sid' = _ at hhandle
    rcases update_eq_some hhandle with ⟨rfl, hnew⟩ | ⟨-, hhandle⟩
    · cases hnew
      exact howner
    · exact h.handle sid' handle hhandle
  · change Function.update k.workers k.next _ w = _ at hworker
    rcases update_eq_some hworker with ⟨rfl, hnew⟩ | ⟨-, hworker⟩
    · cases hnew
      exact howner
    · exact h.worker w worker hworker

theorem OwnedBy.remove {k : Kernel} (h : OwnedBy owner k) (sid : String) :
    OwnedBy owner (k.remove sid) := by
  refine ⟨fun sid' handle hhandle => ?_, h.worker⟩
  change Function.update k.sessions sid none sid' = _ at hhandle
  rcases update_eq_some hhandle with ⟨rfl, hnew⟩ | ⟨-, hhandle⟩
  · cases hnew
  · exact h.handle sid' handle hhandle

end DbClinic.Server
