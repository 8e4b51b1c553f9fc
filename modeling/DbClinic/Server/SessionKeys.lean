import DbClinic.Server.Wired

/-!
The two session maps: the actor's handles and the state that `cancel_turn` and
`deliver_proxy_result` read. A history adds the ids that a create or resume
returned and no remove took back. The maps have the same keys, and a returned
id is bound to one session in both, as long as every file a resume loads
carries the id that was asked for.
-/

namespace DbClinic.Server

open DbClinic.Runtime Persistence Transition Function

/-- A kernel with the ids that are granted. The second field is history, not
state of the program. -/
structure KeyHistory where
  kernel : Kernel
  granted : String → Bool

/-- The granted ids after an action. A restart forgets every session. -/
def grantedAfter (k : Kernel) (granted : String → Bool) : Action → String → Bool
  | .create req stamps => Function.update granted (k.create req stamps).2.1 true
  | .resume req stamps => Function.update granted (k.resume req stamps).2.1 true
  | .remove sid => Function.update granted sid false
  | .restart => fun _ => false
  | _ => granted

variable {k k' : Kernel} {a : Action}

theorem grantedAfter_quiet {granted : String → Bool} (ha : a.isCommand = false) :
    grantedAfter k granted a = granted := by
  cases a <;> first | rfl | cases ha

def KeyHistory.step (h : KeyHistory) (a : Action) : Option KeyHistory :=
  (h.kernel.step a).map fun k => ⟨k, grantedAfter h.kernel h.granted a⟩

/-- The maps of the actor and of the callers have the same keys. -/
def KeysAgree (k : Kernel) : Prop := ∀ sid, (k.sessions sid).isSome = (k.shared sid).isSome

/-- An id is a key of both maps and stands for one session in both. -/
def Bound (k : Kernel) (sid : String) : Prop :=
  ∃ handle state entry, k.sessions sid = some handle ∧ k.shared sid = some state ∧
    k.entries handle.entry = some entry ∧
    state.pendingProxy = entry.runtime.executor.pending ∧
    state.cancelFlag = handle.cancelFlag ∧
    state.cancelFlag = entry.runtime.cancelSignal ∧
    state.cancelFlag = entry.runtime.executor.cancelFlag

def GrantedBound (h : KeyHistory) : Prop :=
  KeysAgree h.kernel ∧ ∀ sid, h.granted sid = true → Bound h.kernel sid

/-- The session file of a resume, if it loads, carries the requested id. -/
def FileIdMatches (disk : SessionTree) (req : ResumeRequest) (stamps : CommandStamps) : Prop :=
  ∀ session, Kernel.loadRequested disk req stamps = .ok session →
    session.sessionId = req.sessionId

def ResumeIdOk (k : Kernel) : Action → Prop
  | .resume req stamps => k.sessions req.sessionId = none → FileIdMatches k.disk req stamps
  | _ => True

theorem resumedSession_id_iff (disk : SessionTree) (req : ResumeRequest)
    (stamps : CommandStamps) :
    (Kernel.resumedSession disk req stamps).1.sessionId = req.sessionId ↔
      FileIdMatches disk req stamps := by
  unfold Kernel.resumedSession FileIdMatches
  cases Kernel.loadRequested disk req stamps with
  | ok session =>
    constructor
    · intro hid s hs
      cases hs
      exact hid
    · intro h
      exact h session rfl
  | error e =>
    constructor
    · intro _ s hs
      cases hs
    · intro _
      rfl

/-- The invariant of the two maps. Everything a session shares was made under
the reference of its entry. -/
structure MapsInv (k : Kernel) : Prop where
  wired : Wired k
  linked : ∀ sid handle, k.sessions sid = some handle → ∃ state, k.shared sid = some state ∧
    state.pendingProxy = handle.entry ∧ state.cancelFlag = handle.entry
  absent : ∀ sid, k.sessions sid = none → k.shared sid = none

theorem MapsInv.keysAgree (h : MapsInv k) : KeysAgree k := by
  intro sid
  cases hsession : k.sessions sid with
  | none =>
    rw [h.absent sid hsession]
    rfl
  | some handle =>
    obtain ⟨state, hstate, -⟩ := h.linked sid handle hsession
    rw [hstate]
    rfl

theorem MapsInv.bound (h : MapsInv k) {sid : String} {handle : SessionHandle}
    (hhandle : k.sessions sid = some handle) : Bound k sid := by
  obtain ⟨state, hstate, hpend, hflag⟩ := h.linked sid handle hhandle
  obtain ⟨⟨entry, hentry⟩, hhandleFlag, -, -⟩ := h.wired.handle sid handle hhandle
  have hbuilt := (h.wired.entry _ entry hentry).2
  refine ⟨handle, state, entry, hhandle, hstate, hentry, ?_, ?_, ?_, ?_⟩
  · exact hpend.trans hbuilt.pending.symm
  · exact hflag.trans hhandleFlag.symm
  · exact hflag.trans hbuilt.runtimeFlag.symm
  · exact hflag.trans hbuilt.executorFlag.symm

theorem mapsInv_start (disk : SessionTree) (backend : SessionBackend) :
    MapsInv (.start disk backend) :=
  ⟨Kernel.wired_start disk backend, by simp [Kernel.start], by simp [Kernel.start]⟩

theorem MapsInv.quiet (h : MapsInv k) (hq : Quiet k k') : MapsInv k' := by
  refine ⟨hq.wired h.wired, ?_, ?_⟩
  · rw [hq.sessions, hq.shared]
    exact h.linked
  · rw [hq.sessions, hq.shared]
    exact h.absent

theorem MapsInv.install (h : MapsInv k) (session : Session) (record : SessionRecord)
    (maxIterations : Option Nat) (channels msgCount : Nat) (stamps : SaveStamps) :
    MapsInv (k.install session.sessionId session record maxIterations channels msgCount
      stamps) := by
  refine ⟨Kernel.install_wired h.wired .., fun sid handle hhandle => ?_, fun sid hnone => ?_⟩
  · change Function.update k.sessions session.sessionId (some ⟨k.next, _, _, _, _⟩) sid = _
      at hhandle
    change ∃ state, Function.update k.shared session.sessionId (some ⟨k.next, k.next, k.next⟩) sid
      = some state ∧ _
    by_cases hsid : sid = session.sessionId
    · subst hsid
      rw [update_self] at hhandle
      cases hhandle
      exact ⟨_, update_self .., rfl, rfl⟩
    · rw [update_of_ne hsid] at hhandle ⊢
      exact h.linked sid handle hhandle
  · change Function.update k.sessions session.sessionId _ sid = none at hnone
    change Function.update k.shared session.sessionId _ sid = none
    by_cases hsid : sid = session.sessionId
    · subst hsid
      rw [update_self] at hnone
      cases hnone
    · rw [update_of_ne hsid] at hnone ⊢
      exact h.absent sid hnone

theorem MapsInv.withDisk (h : MapsInv k) (disk : SessionTree) :
    MapsInv { k with disk } :=
  ⟨Kernel.withDisk_wired h.wired disk, h.linked, h.absent⟩

theorem MapsInv.runTurnStreaming (h : MapsInv k) (sid text : String) (ctx : Option String) :
    MapsInv (k.runTurnStreaming sid text ctx) := by
  refine ⟨Kernel.runTurnStreaming_wired h.wired sid text ctx, ?_, ?_⟩
  · unfold Kernel.runTurnStreaming
    split
    · exact h.linked
    · rename_i old hold
      intro sid' handle hhandle
      change Function.update k.sessions sid _ sid' = _ at hhandle
      change ∃ state, Function.update k.shared sid _ sid' = some state ∧ _
      by_cases hsid : sid' = sid
      · subst hsid
        rw [update_self] at hhandle ⊢
        cases hhandle
        obtain ⟨state, hstate, hpend, hflag⟩ := h.linked sid' old hold
        exact ⟨{ state with cancelToken := k.next }, by rw [hstate]; rfl, hpend, hflag⟩
      · rw [update_of_ne hsid] at hhandle ⊢
        exact h.linked sid' handle hhandle
  · unfold Kernel.runTurnStreaming
    split
    · exact h.absent
    · intro sid' hnone
      change Function.update k.sessions sid _ sid' = none at hnone
      change Function.update k.shared sid _ sid' = none
      by_cases hsid : sid' = sid
      · subst hsid
        rw [update_self] at hnone
        cases hnone
      · rw [update_of_ne hsid] at hnone ⊢
        exact h.absent sid' hnone

theorem MapsInv.remove (h : MapsInv k) (sid : String) : MapsInv (k.remove sid) := by
  refine ⟨Kernel.remove_wired h.wired sid, fun sid' handle hhandle => ?_, fun sid' hnone => ?_⟩
  · change Function.update k.sessions sid none sid' = _ at hhandle
    change ∃ state, Function.update k.shared sid none sid' = some state ∧ _
    by_cases hsid : sid' = sid
    · rw [hsid, update_self] at hhandle
      cases hhandle
    · rw [update_of_ne hsid] at hhandle ⊢
      exact h.linked sid' handle hhandle
  · change Function.update k.sessions sid none sid' = none at hnone
    change Function.update k.shared sid none sid' = none
    by_cases hsid : sid' = sid
    · rw [hsid, update_self]
    · rw [update_of_ne hsid] at hnone ⊢
      exact h.absent sid' hnone

theorem MapsInv.step (h : MapsInv k) (hstep : k.step a = some k') (hok : ResumeIdOk k a) :
    MapsInv k' := by
  cases a using Action.byKind with
  | create req stamps =>
    cases hstep
    exact (h.withDisk _).install ..
  | resume req stamps =>
    cases hstep
    unfold Kernel.resume
    split
    · exact h
    · rename_i hnone
      have hid := (resumedSession_id_iff k.disk req stamps).mpr (hok hnone)
      dsimp only
      rw [← hid]
      exact (h.withDisk _).install ..
  | runTurnStreaming sid text ctx =>
    cases hstep
    exact h.runTurnStreaming sid text ctx
  | remove sid =>
    cases hstep
    exact h.remove sid
  | restart =>
    exact ⟨Kernel.step_wired hstep h.wired, by cases hstep; simp [Kernel.restart, Kernel.start],
      by cases hstep; simp [Kernel.restart, Kernel.start]⟩
  | turn w act => exact h.quiet (Kernel.turn_quiet hstep)
  | aside a haside => exact h.quiet (Kernel.step_aside hstep haside).quiet

theorem MapsInv.bad_resume (h : MapsInv k) (hstep : k.step a = some k') (hbad : ¬ ResumeIdOk k a) :
    ∃ sid, (k'.sessions sid).isSome = true ∧ k'.shared sid = none := by
  cases a with
  | resume req stamps =>
    unfold ResumeIdOk at hbad
    push Not at hbad
    obtain ⟨hnone, hmatch⟩ := hbad
    rw [← resumedSession_id_iff] at hmatch
    cases hstep
    refine ⟨req.sessionId, ?_, ?_⟩
    · unfold Kernel.resume
      rw [hnone]
      change (Function.update k.sessions req.sessionId (some _) req.sessionId).isSome = true
      rw [update_self]
      rfl
    · unfold Kernel.resume
      rw [hnone]
      change Function.update k.shared (Kernel.resumedSession k.disk req stamps).1.sessionId _
        req.sessionId = none
      rw [update_of_ne (Ne.symm hmatch)]
      exact h.absent _ hnone
  | _ => exact absurd trivial hbad

/-- A returned id is a key of the actor's map. -/
def GrantedLive (h : KeyHistory) : Prop :=
  ∀ sid, h.granted sid = true → (h.kernel.sessions sid).isSome = true

theorem update_isSome {α : Type} (f : String → Option α) (key sid : String) (a : α)
    (h : (f sid).isSome = true) : (Function.update f key (some a) sid).isSome = true := by
  rcases eq_or_ne sid key with rfl | hne
  · rw [update_self]
    rfl
  · rwa [update_of_ne hne]

theorem granted_step {h : KeyHistory} (hlive : GrantedLive h) (hstep : h.kernel.step a = some k')
    (hok : ResumeIdOk h.kernel a) :
    GrantedLive ⟨k', grantedAfter h.kernel h.granted a⟩ := by
  obtain ⟨k, granted⟩ := h
  have hquiet : a.isCommand = false → GrantedLive ⟨k', grantedAfter k granted a⟩ := by
    intro hcmd sid hsid
    rw [grantedAfter_quiet hcmd] at hsid
    change (k'.sessions sid).isSome = true
    rw [(Kernel.step_quiet hstep hcmd).sessions]
    exact hlive sid hsid
  cases a using Action.byKind with
  | create req stamps =>
    cases hstep
    intro sid hsid
    change Function.update granted _ true sid = true at hsid
    change (Function.update k.sessions (k.create req stamps).2.1 (some _) sid).isSome = true
    rcases eq_or_ne sid (k.create req stamps).2.1 with rfl | hne
    · rw [update_self]
      rfl
    · rw [update_of_ne hne] at hsid
      exact update_isSome _ _ _ _ (hlive sid hsid)
  | resume req stamps =>
    cases hstep
    intro sid hsid
    change Function.update granted (k.resume req stamps).2.1 true sid = true at hsid
    change ((k.resume req stamps).1.sessions sid).isSome = true
    unfold Kernel.resume at hsid ⊢
    cases hsession : k.sessions req.sessionId with
    | some handle =>
      rw [hsession] at hsid
      change Function.update granted req.sessionId true sid = true at hsid
      change (k.sessions sid).isSome = true
      rcases eq_or_ne sid req.sessionId with rfl | hne
      · rw [hsession]
        rfl
      · rw [update_of_ne hne] at hsid
        exact hlive sid hsid
    | none =>
      have hid := (resumedSession_id_iff k.disk req stamps).mpr (hok hsession)
      rw [hsession] at hsid
      change Function.update granted (Kernel.resumedSession k.disk req stamps).1.sessionId
        true sid = true at hsid
      change (Function.update k.sessions req.sessionId (some _) sid).isSome = true
      rw [hid] at hsid
      rcases eq_or_ne sid req.sessionId with rfl | hne
      · rw [update_self]
        rfl
      · rw [update_of_ne hne] at hsid
        exact update_isSome _ _ _ _ (hlive sid hsid)
  | runTurnStreaming sid text ctx =>
    cases hstep
    intro sid' hsid
    change ((k.runTurnStreaming sid text ctx).sessions sid').isSome = true
    unfold Kernel.runTurnStreaming
    split
    · exact hlive sid' hsid
    · exact update_isSome _ _ _ _ (hlive sid' hsid)
  | remove sid =>
    cases hstep
    intro sid' hsid
    change Function.update granted sid false sid' = true at hsid
    change (Function.update k.sessions sid none sid').isSome = true
    rcases eq_or_ne sid' sid with rfl | hne
    · rw [update_self] at hsid
      cases hsid
    · rw [update_of_ne hne] at hsid ⊢
      exact hlive sid' hsid
  | restart =>
    intro sid hsid
    cases hsid
  | turn w act => exact hquiet rfl
  | aside a haside => exact hquiet (Action.not_command haside)

/-- A process that has just started has granted nothing. -/
def KeyHistory.start (disk : SessionTree) (backend : SessionBackend) : KeyHistory :=
  ⟨.start disk backend, fun _ => false⟩

/-- Along every run from the start, the maps agree and every returned id is
bound until it is removed, exactly as long as each resume that builds a session
finds the requested id in the file. -/
theorem granted_bound_along_iff (disk : SessionTree) (backend : SessionBackend)
    (acts : List Action) :
    Along KeyHistory.step GrantedBound (.start disk backend) acts ↔
      Meets KeyHistory.step (fun h a => ResumeIdOk h.kernel a) (.start disk backend) acts := by
  apply along_iff_meets (I := fun h => MapsInv h.kernel ∧ GrantedLive h)
  · rintro h ⟨hmaps, hlive⟩
    refine ⟨hmaps.keysAgree, fun sid hsid => ?_⟩
    obtain ⟨handle, hhandle⟩ := Option.isSome_iff_exists.mp (hlive sid hsid)
    exact hmaps.bound hhandle
  · rintro h a h' ⟨hmaps, hlive⟩ hstep hok
    obtain ⟨k', hk', rfl⟩ := Option.map_eq_some_iff.mp hstep
    exact ⟨hmaps.step hk' hok, granted_step hlive hk' hok⟩
  · rintro h a h' ⟨hmaps, -⟩ hstep hbad hbound
    obtain ⟨k', hk', rfl⟩ := Option.map_eq_some_iff.mp hstep
    obtain ⟨sid, hlive, hnone⟩ := hmaps.bad_resume hk' hbad
    have hagree := hbound.1 sid
    change (k'.sessions sid).isSome = (k'.shared sid).isSome at hagree
    rw [hlive, hnone] at hagree
    cases hagree
  · exact ⟨mapsInv_start disk backend, fun sid hsid => by cases hsid⟩

/-- A file under the name `a` that holds the session `b`: its resume puts the
handle under `a` and the shared state under `b`. -/
theorem resumed_under_two_ids :
    ¬ ∀ disk backend acts, Along KeyHistory.step GrantedBound (.start disk backend) acts := by
  intro hlaw
  let disk := treeWithFile ["data", "sessions", "a.jsonl"]
    ("\x7b\"type\":\"session_meta\",\"version\":1,\"session_id\":\"b\"," ++
      "\"created_at_ms\":1,\"updated_at_ms\":1\x7d\n")
  let req : ResumeRequest := ⟨"a", "/data", "", "mock", none, 0⟩
  let stamps : CommandStamps := ⟨2, ⟨3, 0⟩, 4, ⟨5, ⟨6, 1⟩, 7⟩, ⟨8, ⟨9, 2⟩, 10⟩⟩
  have halong := hlaw disk (.memory .new) [.resume req stamps]
  have hagree := (halong.2 _ rfl).head.1 "a"
  have hsession : (((Kernel.start disk (.memory .new)).resume req stamps).1.sessions
      "a").isSome = true := by decide +kernel
  have hshared : (((Kernel.start disk (.memory .new)).resume req stamps).1.shared
      "a").isSome = false := by decide +kernel
  change (((Kernel.start disk (.memory .new)).resume req stamps).1.sessions "a").isSome =
    (((Kernel.start disk (.memory .new)).resume req stamps).1.shared "a").isSome at hagree
  rw [hsession, hshared] at hagree
  cases hagree

end DbClinic.Server
