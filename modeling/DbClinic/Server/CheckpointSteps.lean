import Mathlib
import DbClinic.Server.Wired

/-!
The step indices of saved checkpoints. A history logs every checkpoint a worker
saves with the entry it ran on. The index counts the turns of that entry and
starts again at zero when a resume builds another one, so the indices of a
session grow exactly as long as one entry saves all its checkpoints.
-/

namespace DbClinic.Server

open DbClinic.Runtime Persistence Transition List Function

structure SavedCheckpoint where
  checkpoint : Checkpoint
  entry : Nat

structure CheckpointHistory where
  kernel : Kernel
  log : List SavedCheckpoint

def savedBy (k : Kernel) : Action → List SavedCheckpoint
  | .turn w (.saveCheckpoint now) =>
    match k.workers w with
    | none => []
    | some worker =>
      match k.entries worker.entry with
      | none => []
      | some entry => [⟨TurnView.checkpointOf worker entry now, worker.entry⟩]
  | _ => []

def CheckpointHistory.step (h : CheckpointHistory) (a : Action) : Option CheckpointHistory :=
  (h.kernel.step a).map fun k => ⟨k, h.log ++ savedBy h.kernel a⟩

def CheckpointHistory.start (disk : SessionTree) (backend : SessionBackend) :
    CheckpointHistory :=
  ⟨.start disk backend, []⟩

def checkpointsOf (log : List SavedCheckpoint) (sid : String) : List Checkpoint :=
  (log.filter fun s => s.checkpoint.sessionId = sid).map SavedCheckpoint.checkpoint

/-- The step indices of every session grow, and no checkpoint id is used twice. -/
def StepsGrow (log : List SavedCheckpoint) : Prop :=
  ∀ sid, ((checkpointsOf log sid).map Checkpoint.stepIndex).Pairwise (· < ·) ∧
    ((checkpointsOf log sid).map Checkpoint.checkpointId).Nodup

/-- The session's earlier checkpoints were saved by the entry that saves now. -/
def SameEntrySaves (h : CheckpointHistory) (a : Action) : Prop :=
  ∀ c ∈ savedBy h.kernel a, ∀ d ∈ h.log,
    d.checkpoint.sessionId = c.checkpoint.sessionId → d.entry = c.entry

structure LogInv (owner : Nat → String) (h : CheckpointHistory) : Prop where
  wired : Wired h.kernel
  owned : OwnedBy owner h.kernel
  mem : ∀ d ∈ h.log, d.entry < h.kernel.next ∧ owner d.entry = d.checkpoint.sessionId
  ids : ∀ d ∈ h.log, d.checkpoint.checkpointId =
    "cp-" ++ d.checkpoint.sessionId ++ "-" ++ toString d.checkpoint.stepIndex
  counted : ∀ r, ∃ n, (h.log.filter fun s => s.entry = r).map (·.checkpoint.stepIndex) =
    List.range n ∧ ∀ e, h.kernel.entries r = some e → e.stepIndex = n
  same : ∀ d ∈ h.log, ∀ d' ∈ h.log,
    d.checkpoint.sessionId = d'.checkpoint.sessionId → d.entry = d'.entry

variable {owner : Nat → String}

variable {h : CheckpointHistory} {k' : Kernel} {a : Action}

theorem LogInv.of_entry (hlog : LogInv owner h) {d : SavedCheckpoint} (hd : d ∈ h.log) :
    (h.log.filter fun s => s.checkpoint.sessionId = d.checkpoint.sessionId) =
      h.log.filter fun s => s.entry = d.entry := by
  apply filter_congr
  intro s hs
  rw [decide_eq_decide]
  constructor
  · intro hsid
    exact hlog.same s hs d hd hsid
  · intro hentry
    rw [← (hlog.mem s hs).2, ← (hlog.mem d hd).2, hentry]

theorem LogInv.stepsGrow (hlog : LogInv owner h) : StepsGrow h.log := by
  intro sid
  have hsteps : ∃ n, (checkpointsOf h.log sid).map Checkpoint.stepIndex = List.range n := by
    rcases hempty : h.log.filter (fun s => s.checkpoint.sessionId = sid) with - | ⟨d, rest⟩
    · refine ⟨0, ?_⟩
      rw [checkpointsOf, hempty]
      rfl
    · have hd : d ∈ h.log.filter fun s => s.checkpoint.sessionId = sid := by
        rw [hempty]
        exact mem_cons_self
      obtain ⟨hmem, hsid⟩ := mem_filter.mp hd
      have hsid' : d.checkpoint.sessionId = sid := of_decide_eq_true hsid
      obtain ⟨n, hn, -⟩ := hlog.counted d.entry
      refine ⟨n, ?_⟩
      rw [checkpointsOf, ← hsid', hlog.of_entry hmem, map_map]
      exact hn
  obtain ⟨n, hn⟩ := hsteps
  refine ⟨hn ▸ pairwise_lt_range, ?_⟩
  have hids : (checkpointsOf h.log sid).map Checkpoint.checkpointId =
      ((checkpointsOf h.log sid).map Checkpoint.stepIndex).map fun step =>
        "cp-" ++ sid ++ "-" ++ toString step := by
    rw [map_map]
    apply map_congr_left
    intro c hc
    obtain ⟨d, hd, rfl⟩ := mem_map.mp hc
    obtain ⟨hmem, hsid⟩ := mem_filter.mp hd
    have hsid' : d.checkpoint.sessionId = sid := of_decide_eq_true hsid
    rw [hlog.ids d hmem, hsid']
    rfl
  rw [hids, hn]
  apply nodup_range.map
  intro m m' hm
  exact Nat.repr_injective ((String.append_right_inj _).mp hm)

theorem LogInv.kept (hlog : LogInv owner h) (hwired : Wired k') (howned : OwnedBy owner k')
    (hnext : h.kernel.next ≤ k'.next) (hents : ∀ r e', k'.entries r = some e' →
      ∃ e, h.kernel.entries r = some e ∧ e'.stepIndex = e.stepIndex) :
    LogInv owner ⟨k', h.log⟩ := by
  refine ⟨hwired, howned, fun d hd => ?_, hlog.ids, fun r => ?_, hlog.same⟩
  · obtain ⟨hlt, hsid⟩ := hlog.mem d hd
    exact ⟨Nat.lt_of_lt_of_le hlt hnext, hsid⟩
  · obtain ⟨n, hn, hcount⟩ := hlog.counted r
    refine ⟨n, hn, fun e' he' => ?_⟩
    obtain ⟨e, he, hstep⟩ := hents r e' he'
    rw [hstep]
    exact hcount e he

theorem LogInv.install (hlog : LogInv owner h) (key : String) (session : Session)
    (record : SessionRecord) (maxIterations : Option Nat) (channels msgCount : Nat)
    (stamps : SaveStamps) :
    LogInv (Function.update owner h.kernel.next key)
      ⟨h.kernel.install key session record maxIterations channels msgCount stamps, h.log⟩ := by
  refine ⟨Kernel.install_wired hlog.wired .., hlog.owned.install hlog.wired .., fun d hd => ?_,
    hlog.ids, fun r => ?_, hlog.same⟩
  · obtain ⟨hlt, hsid⟩ := hlog.mem d hd
    refine ⟨Nat.lt_succ_of_lt hlt, ?_⟩
    rw [update_of_ne (by omega)]
    exact hsid
  · change ∃ n, _ ∧ ∀ e, Function.update h.kernel.entries h.kernel.next
      (some (Kernel.newEntry h.kernel.next session maxIterations channels)) r = some e → _
    rcases eq_or_ne r h.kernel.next with rfl | hne
    · refine ⟨0, ?_, fun e he => ?_⟩
      · have hnone : h.log.filter (fun s => s.entry = h.kernel.next) = [] := by
          rw [filter_eq_nil_iff]
          intro d hd
          have hlt := (hlog.mem d hd).1
          rw [decide_eq_true_eq]
          omega
        rw [hnone]
        rfl
      · rw [update_self] at he
        cases he
        rfl
    · rw [update_of_ne hne]
      exact hlog.counted r

theorem LogInv.withDisk (hlog : LogInv owner h) (disk : SessionTree) :
    LogInv owner ⟨{ h.kernel with disk }, h.log⟩ :=
  ⟨Kernel.withDisk_wired hlog.wired disk, ⟨hlog.owned.handle, hlog.owned.worker⟩, hlog.mem,
    hlog.ids, hlog.counted, hlog.same⟩

theorem LogInv.quiet (hlog : LogInv owner h) (hq : Quiet h.kernel k')
    (hsteps : ∀ r, (k'.entries r).map SessionEntry.stepIndex =
      (h.kernel.entries r).map SessionEntry.stepIndex) : LogInv owner ⟨k', h.log⟩ := by
  refine hlog.kept (hq.wired hlog.wired) (hlog.owned.quiet hq) hq.next fun r e' he' => ?_
  have hmap := hsteps r
  rw [he', Option.map_some, eq_comm, Option.map_eq_some_iff] at hmap
  obtain ⟨e, he, hstep⟩ := hmap
  exact ⟨e, he, hstep.symm⟩

theorem turn_log {k : Kernel} {w : Nat} {act : TurnAct} (hstep : k.turn w act = some k') :
    (savedBy k (.turn w act) = [] ∧
      ∀ r, (k'.entries r).map SessionEntry.stepIndex =
        (k.entries r).map SessionEntry.stepIndex) ∨
    ∃ worker entry entry' now, k.workers w = some worker ∧
      k.entries worker.entry = some entry ∧
      savedBy k (.turn w act) = [⟨TurnView.checkpointOf worker entry now, worker.entry⟩] ∧
      k'.entries = Function.update k.entries worker.entry (some entry') ∧
      entry'.stepIndex = entry.stepIndex + 1 := by
  obtain ⟨worker, entry, v', hworker, hentry, heffect, rfl⟩ := Kernel.turn_cases hstep
  rcases heffect.stepIndex with ⟨hact, hsame⟩ | ⟨now, rfl, hnext⟩
  · left
    refine ⟨?_, fun r => ?_⟩
    · unfold savedBy
      split
      · rename_i heq
        cases heq
        exact absurd rfl (hact _)
      · rfl
    · change (Function.update k.entries worker.entry (some v'.entry) r).map _ = _
      rcases eq_or_ne r worker.entry with rfl | hne
      · rw [update_self, hentry]
        exact congrArg some hsame
      · rw [update_of_ne hne]
  · right
    refine ⟨worker, entry, v'.entry, now, hworker, hentry, ?_, rfl, hnext⟩
    simp only [savedBy, hworker, hentry]

theorem savedBy_aside {k : Kernel} (ha : a.isAside = true) : savedBy k a = [] := by
  cases a <;> first | rfl | cases ha

theorem LogInv.saved (hlog : LogInv owner h) (hq : Quiet h.kernel k') {worker : Worker}
    {entry entry' : SessionEntry} {w now : Nat} (hworker : h.kernel.workers w = some worker)
    (hentry : h.kernel.entries worker.entry = some entry)
    (hents : k'.entries = Function.update h.kernel.entries worker.entry (some entry'))
    (hnext : entry'.stepIndex = entry.stepIndex + 1)
    (hsame : ∀ d ∈ h.log, d.checkpoint.sessionId = worker.sessionId → d.entry = worker.entry) :
    LogInv owner ⟨k', h.log ++ [⟨TurnView.checkpointOf worker entry now, worker.entry⟩]⟩ := by
  have howner := hlog.owned.worker w worker hworker
  have hlt := (hlog.wired.entry _ entry hentry).1
  have hle := hq.next
  refine ⟨hq.wired hlog.wired, hlog.owned.quiet hq, fun d hd => ?_, fun d hd => ?_, fun r => ?_,
    fun d hd d' hd' hsid => ?_⟩
  · rcases mem_append.mp hd with hold | hnew
    · obtain ⟨hlt', hsid⟩ := hlog.mem d hold
      exact ⟨Nat.lt_of_lt_of_le hlt' hle, hsid⟩
    · rw [mem_singleton] at hnew
      subst hnew
      exact ⟨Nat.lt_of_lt_of_le hlt hle, howner⟩
  · rcases mem_append.mp hd with hold | hnew
    · exact hlog.ids d hold
    · rw [mem_singleton] at hnew
      subst hnew
      rfl
  · obtain ⟨n, hn, hcount⟩ := hlog.counted r
    rw [hents, filter_append, map_append, hn]
    rcases eq_or_ne r worker.entry with rfl | hne
    · have hindex := hcount entry hentry
      refine ⟨n + 1, ?_, fun e he => ?_⟩
      · rw [range_succ, filter_singleton, decide_eq_true rfl]
        exact congrArg (fun i => List.range n ++ [i]) hindex
      · rw [update_self] at he
        cases he
        rw [hnext, hindex]
    · refine ⟨n, ?_, ?_⟩
      · rw [filter_singleton, decide_eq_false (Ne.symm hne)]
        exact append_nil _
      · rw [update_of_ne hne]
        exact hcount
  · have hone : ∀ s ∈ h.log ++ [⟨TurnView.checkpointOf worker entry now, worker.entry⟩],
        s.checkpoint.sessionId = worker.sessionId → s.entry = worker.entry := by
      intro s hs hid
      rcases mem_append.mp hs with hold | hnew
      · exact hsame s hold hid
      · rw [mem_singleton] at hnew
        subst hnew
        rfl
    rcases eq_or_ne d.checkpoint.sessionId worker.sessionId with hid | hne
    · rw [hone d hd hid, hone d' hd' (hsid ▸ hid)]
    · have hmem : ∀ s ∈ h.log ++ [⟨TurnView.checkpointOf worker entry now, worker.entry⟩],
          s.checkpoint.sessionId ≠ worker.sessionId → s ∈ h.log := by
        intro s hs hid
        rcases mem_append.mp hs with hold | hnew
        · exact hold
        · rw [mem_singleton] at hnew
          subst hnew
          exact absurd rfl hid
      exact hlog.same d (hmem d hd hne) d' (hmem d' hd' (hsid ▸ hne)) hsid

theorem LogInv.step {h' : CheckpointHistory} (hlog : LogInv owner h) (hstep : h.step a = some h')
    (hok : SameEntrySaves h a) : ∃ owner', LogInv owner' h' := by
  obtain ⟨k', hk', rfl⟩ := Option.map_eq_some_iff.mp hstep
  obtain ⟨k, log⟩ := h
  have hkept : ∀ {owner' : Nat → String}, savedBy k a = [] → LogInv owner' ⟨k', log⟩ →
      ∃ owner', LogInv owner' ⟨k', log ++ savedBy k a⟩ := by
    intro owner' hnone hinv
    refine ⟨owner', ?_⟩
    rw [hnone, append_nil]
    exact hinv
  have hsteps := fun r e' (he : k.entries r = some e') =>
    (⟨e', he, rfl⟩ : ∃ e, k.entries r = some e ∧ e'.stepIndex = e.stepIndex)
  cases a using Action.byKind with
  | create req stamps =>
    cases hk'
    apply hkept rfl
    exact (hlog.withDisk _).install ..
  | resume req stamps =>
    cases hk'
    rcases hsession : k.sessions req.sessionId with - | handle
    · obtain ⟨record, hbuilt⟩ := Kernel.resume_builds hsession stamps
      apply hkept rfl
      rw [hbuilt]
      exact (hlog.withDisk _).install ..
    · apply hkept rfl
      rw [Kernel.resume_live hsession stamps]
      exact hlog
  | runTurnStreaming sid text ctx =>
    have hwired := Kernel.step_wired hk' hlog.wired
    cases hk'
    apply hkept rfl
    apply hlog.kept hwired (hlog.owned.runTurnStreaming sid text ctx)
    · unfold Kernel.runTurnStreaming
      split
      · exact Nat.le_refl _
      · exact Nat.le_succ _
    · unfold Kernel.runTurnStreaming
      split
      · exact hsteps
      · exact hsteps
  | remove sid =>
    have hwired := Kernel.step_wired hk' hlog.wired
    cases hk'
    apply hkept rfl
    exact hlog.kept hwired (hlog.owned.remove sid) (Nat.le_refl _) hsteps
  | restart =>
    have hwired := Kernel.step_wired hk' hlog.wired
    cases hk'
    apply hkept rfl
    have howned : OwnedBy owner k.restart :=
      ⟨fun sid handle hhandle => (by cases hhandle), fun w worker hworker => (by cases hworker)⟩
    apply hlog.kept hwired howned (Nat.le_refl _)
    intro r e' he'
    cases he'
  | turn w act =>
    have hq := Kernel.turn_quiet hk'
    rcases turn_log hk' with ⟨hnone, hindex⟩ |
      ⟨worker, entry, entry', now, hworker, hentry, hsaved, hents, hnext⟩
    · exact hkept hnone (hlog.quiet hq hindex)
    · refine ⟨owner, ?_⟩
      dsimp only
      rw [hsaved]
      apply hlog.saved hq hworker hentry hents hnext
      refine hok ⟨TurnView.checkpointOf worker entry now, worker.entry⟩ ?_
      change _ ∈ savedBy k (.turn w act)
      rw [hsaved]
      exact mem_singleton_self _
  | aside a haside =>
    have hq := Kernel.step_aside hk' haside
    apply hkept (savedBy_aside haside)
    exact hlog.quiet hq.quiet fun r => by rw [hq.entries]

theorem LogInv.bad_step {h' : CheckpointHistory} (hlog : LogInv owner h)
    (hstep : h.step a = some h') (hbad : ¬ SameEntrySaves h a) : ¬ StepsGrow h'.log := by
  obtain ⟨k', hk', rfl⟩ := Option.map_eq_some_iff.mp hstep
  unfold SameEntrySaves at hbad
  push Not at hbad
  obtain ⟨c, hc, d, hd, hsid, hne⟩ := hbad
  cases a using Action.byKind with
  | turn w act =>
    rcases turn_log hk' with ⟨hnone, -⟩ | ⟨worker, entry, -, now, hworker, hentry, hsaved, -, -⟩
    · rw [hnone] at hc
      cases hc
    rw [hsaved, mem_singleton] at hc
    subst hc
    have hfirst : entry.stepIndex = 0 := by
      obtain ⟨n, hn, hcount⟩ := hlog.counted worker.entry
      have hnone : (h.log.filter fun s => s.entry = worker.entry) = [] := by
        rw [filter_eq_nil_iff]
        intro s hs hentry
        have hentry' : s.entry = worker.entry := of_decide_eq_true hentry
        have howner := hlog.owned.worker w worker hworker
        have hsame : s.checkpoint.sessionId = d.checkpoint.sessionId := by
          rw [hsid, ← (hlog.mem s hs).2, hentry', howner]
          rfl
        exact hne ((hlog.same s hs d hd hsame).symm.trans hentry')
      rw [hnone, map_nil] at hn
      rw [hcount entry hentry]
      exact (range_eq_nil.mp hn.symm)
    intro hgrow
    have hpair := (hgrow worker.sessionId).1
    have hlast : checkpointsOf (h.log ++ savedBy h.kernel (.turn w act)) worker.sessionId =
        checkpointsOf h.log worker.sessionId ++ [TurnView.checkpointOf worker entry now] := by
      have hid : (TurnView.checkpointOf worker entry now).sessionId = worker.sessionId := rfl
      rw [hsaved, checkpointsOf, filter_append, map_append, filter_singleton,
        decide_eq_true hid]
      rfl
    have hmem : d.checkpoint.stepIndex ∈
        (checkpointsOf h.log worker.sessionId).map Checkpoint.stepIndex :=
      mem_map.mpr ⟨_, mem_map.mpr
        ⟨d, mem_filter.mpr ⟨hd, decide_eq_true hsid⟩, rfl⟩, rfl⟩
    rw [hlast, map_append, pairwise_append] at hpair
    have hlt := hpair.2.2 _ hmem entry.stepIndex (mem_singleton_self _)
    omega
  | aside a haside =>
    rw [savedBy_aside haside] at hc
    cases hc
  | _ => cases hc

/-- Along every run from the start, the step indices of every session grow
exactly as long as each session's checkpoints are all saved by one entry. -/
theorem checkpoint_steps_grow_along_iff (disk : SessionTree) (backend : SessionBackend)
    (acts : List Action) :
    Along CheckpointHistory.step (fun h => StepsGrow h.log) (.start disk backend) acts ↔
      Meets CheckpointHistory.step SameEntrySaves (.start disk backend) acts := by
  apply along_iff_meets (I := fun h => ∃ owner, LogInv owner h)
  · rintro h ⟨owner, hlog⟩
    exact hlog.stepsGrow
  · rintro h a h' ⟨owner, hlog⟩ hstep hok
    exact hlog.step hstep hok
  · rintro h a h' ⟨owner, hlog⟩ hstep hbad
    exact hlog.bad_step hstep hbad
  · refine ⟨fun _ => "", Kernel.wired_start disk backend, ⟨?_, ?_⟩, ?_, ?_,
      fun r => ⟨0, rfl, ?_⟩, ?_⟩
    · intro sid handle hhandle
      cases hhandle
    · intro w worker hworker
      cases hworker
    · intro d hd
      cases hd
    · intro d hd
      cases hd
    · intro e he
      cases he
    · intro d hd
      cases hd

def restartedTurns : List Action :=
  let stamps : CommandStamps := ⟨1, ⟨2, 0⟩, 3, ⟨4, ⟨5, 1⟩, 6⟩, ⟨7, ⟨8, 2⟩, 9⟩⟩
  [.create ⟨"mock", none, 0, some "/data", none⟩ stamps,
    .runTurnStreaming "session-2-0" "why is it slow?" none,
    .turn 1 .acquire, .turn 1 (.panic "lost"), .turn 1 (.saveCheckpoint 10), .restart,
    .resume ⟨"session-2-0", "/data", "", "mock", none, 0⟩ stamps,
    .runTurnStreaming "session-2-0" "and now?" none,
    .turn 3 .acquire, .turn 3 (.panic "lost"), .turn 3 (.saveCheckpoint 11)]

/-- Both turns save the checkpoint `cp-session-2-0-0`. -/
theorem resumed_session_reuses_step :
    ¬ ∀ disk backend acts, Along CheckpointHistory.step (fun h => StepsGrow h.log)
      (.start disk backend) acts := by
  intro hlaw
  have hrun : (run CheckpointHistory.step (.start .empty (.memory .new)) restartedTurns).any
      (fun h => (checkpointsOf h.log "session-2-0").map Checkpoint.checkpointId =
        ["cp-session-2-0-0", "cp-session-2-0-0"]) = true := by
    decide +kernel
  obtain ⟨h, hh, hids⟩ := (Option.any_eq_true _ _).mp hrun
  have hnodup := (((hlaw .empty (.memory .new) restartedTurns).last hh) "session-2-0").2
  rw [of_decide_eq_true hids] at hnodup
  simp at hnodup

end DbClinic.Server
