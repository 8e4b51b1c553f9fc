import Mathlib
import DbClinic.Runtime.WorkerRegistry

/-!
What outside observers see of a worker: its numbered event log, and the state
file its last push wrote. Both say what the worker is after every call, as long
as no screen shows only that a prompt is being worked on: that observation
changes the worker without a push.
-/

namespace DbClinic.Runtime.WorkerBoot

open Transition List

variable {π : Type} (place : String → π)

namespace WorkerRegistry

/-- The snapshot of the newest entry of the log that satisfies `p`. -/
def newest (log : List (π × StateSnapshot)) (p : π × StateSnapshot → Bool) :
    Option StateSnapshot :=
  (log.find? p).map Prod.snd

def lastWritten (r : WorkerRegistry π) (id : String) : Option StateSnapshot :=
  newest r.written fun entry => entry.2.workerId = id

def stateFile [DecidableEq π] (r : WorkerRegistry π) (p : π) : Option StateSnapshot :=
  newest r.written fun entry => entry.1 = p

/-- Every worker's events are numbered, the last of them says its status, and
the state file last written for it shows it as it is. -/
def Observable (r : WorkerRegistry π) : Prop :=
  ∀ id worker, r.workers.get id = some worker → Numbered worker ∧ StatusLogged worker ∧
    ∃ snapshot, r.lastWritten id = some snapshot ∧ snapshot.Shows worker

/-- Every worker's state file is still the one last written for it. -/
def OnDisk [DecidableEq π] (r : WorkerRegistry π) : Prop :=
  ∀ id worker, r.workers.get id = some worker →
    r.stateFile (place worker.cwd) = r.lastWritten id

/-- The call is no observation that clears the prompt in flight and shows
nothing else to act on. -/
def Loud (r : WorkerRegistry π) (a : Host × WorkerCall) : Prop :=
  ∀ id screenText worker, a.2 = .on id (.observe screenText) → r.workers.get id = some worker →
    ¬ RunsSilently a.1 worker screenText

/-- The call creates no worker whose state file is that of another one. -/
def Apart (r : WorkerRegistry π) (a : Host × WorkerCall) : Prop :=
  ∀ cwd roots autoRecover, a.2 = .create cwd roots autoRecover →
    ∀ id worker, r.workers.get id = some worker → place worker.cwd ≠ place cwd

/-- The map is keyed by the ids, which number the creations, and every state
file written is a worker's own. -/
structure Keyed (r : WorkerRegistry π) : Prop where
  named : ∀ id worker, r.workers.get id = some worker → worker.workerId = id
  counted : ∀ id worker, r.workers.get id = some worker →
    ∃ timestamp n, id = workerIdOf timestamp n ∧ n ≤ r.counter
  written : ∀ entry ∈ r.written, ∃ worker, r.workers.get entry.2.workerId = some worker ∧
    entry.1 = place worker.cwd

end WorkerRegistry

theorem underscore_not_mem_toString (n : Nat) : '_' ∉ (toString n).toList := by
  intro h
  rw [Nat.toString_eq_repr, Nat.toList_repr] at h
  cases Nat.isDigit_of_mem_toDigits (by decide) (by decide) h

theorem workerIdOf_counter {t t' n n' : Nat} (h : workerIdOf t n = workerIdOf t' n') : n = n' := by
  have hlast (t n : Nat) : (workerIdOf t n).toList.reverse.takeWhile (· ≠ '_') =
      (toString n).toList.reverse := by
    have hdigits : ∀ c ∈ (toString n).toList.reverse, decide (c ≠ '_') = true := by
      intro c hc
      rw [decide_eq_true_eq]
      rintro rfl
      exact underscore_not_mem_toString n (mem_reverse.mp hc)
    have hreverse : (workerIdOf t n).toList.reverse =
        (toString n).toList.reverse ++ '_' :: ("worker_" ++ hexText t).toList.reverse := by
      simp [workerIdOf]
    rw [hreverse, takeWhile_append_of_pos hdigits]
    simp
  have hreverse := (hlast t n).symm.trans ((congrArg _ (congrArg _ (congrArg _ h))).trans (hlast t' n'))
  exact Nat.repr_injective (String.toList_injective (reverse_injective hreverse))

namespace WorkerRegistry

variable {p : π × StateSnapshot → Bool} {xs : List (π × StateSnapshot)}

theorem newest_append_of_all (log : List (π × StateSnapshot)) (h : ∀ x ∈ xs, p x = true) :
    newest (xs ++ log) p = (xs.head?.map Prod.snd).or (newest log p) := by
  cases xs with
  | nil => rfl
  | cons x xs =>
    unfold newest
    rw [cons_append, find?_cons_of_pos (h x mem_cons_self)]
    rfl

theorem newest_append_of_none (log : List (π × StateSnapshot)) (h : ∀ x ∈ xs, p x = false) :
    newest (xs ++ log) p = newest log p := by
  have hnone : xs.find? p = none := find?_eq_none.mpr fun x hx => by simp [h x hx]
  unfold newest
  rw [find?_append, hnone, Option.none_or]

theorem newest_congr {log : List (π × StateSnapshot)} {q : π × StateSnapshot → Bool}
    (h : ∀ x ∈ log, p x = q x) : newest log p = newest log q := by
  induction log with
  | nil => rfl
  | cons x log ih =>
    unfold newest at ih ⊢
    rw [find?_cons, find?_cons, h x (by simp)]
    cases q x with
    | true => rfl
    | false => exact ih fun y hy => h y (by simp [hy])

section Store

variable {r : WorkerRegistry π} {id : String} {c : Control}

theorem lastWritten_store_self (hids : ∀ snapshot ∈ c.written, snapshot.workerId = id) :
    (r.store place id c).lastWritten id = c.written.head?.or (r.lastWritten id) := by
  have hall : ∀ x ∈ c.written.map fun snapshot => (place c.worker.cwd, snapshot),
      decide (x.2.workerId = id) = true := by
    intro x hx
    obtain ⟨snapshot, hmem, rfl⟩ := mem_map.mp hx
    exact decide_eq_true (hids snapshot hmem)
  have hnewest := newest_append_of_all r.written hall
  rw [head?_map, Option.map_map] at hnewest
  exact hnewest.trans (by cases c.written.head? <;> rfl)

theorem lastWritten_store_of_ne {other : String} (hne : other ≠ id)
    (hids : ∀ snapshot ∈ c.written, snapshot.workerId = id) :
    (r.store place id c).lastWritten other = r.lastWritten other := by
  refine newest_append_of_none r.written fun x hx => ?_
  obtain ⟨snapshot, hmem, rfl⟩ := mem_map.mp hx
  rw [decide_eq_false_iff_not, hids snapshot hmem]
  exact fun heq => hne heq.symm

theorem Keyed.fresh (h : Keyed place r) (timestamp : Nat) :
    r.workers.get (workerIdOf timestamp (r.counter + 1)) = none := by
  rw [Option.eq_none_iff_forall_ne_some]
  intro worker hget
  obtain ⟨t, n, hid, hle⟩ := h.counted _ worker hget
  have heq := workerIdOf_counter hid
  omega

theorem Keyed.store (h : Keyed place r) (hnamed : c.worker.workerId = id)
    (hcounted : ∃ timestamp n, id = workerIdOf timestamp n ∧ n ≤ r.counter)
    (hcwd : ∀ worker, r.workers.get id = some worker → worker.cwd = c.worker.cwd)
    (hids : ∀ snapshot ∈ c.written, snapshot.workerId = id) :
    Keyed place (r.store place id c) := by
  have hget (other : String) : (r.store place id c).workers.get other =
      if other = id then some c.worker else r.workers.get other :=
    r.workers.get_insert id other c.worker
  refine ⟨fun other worker hother => ?_, fun other worker hother => ?_, fun entry hmem => ?_⟩
  · rw [hget] at hother
    split at hother
    · rename_i heq
      cases hother
      exact hnamed.trans heq.symm
    · exact h.named other worker hother
  · rw [hget] at hother
    split at hother
    · rename_i heq
      exact heq ▸ hcounted
    · exact h.counted other worker hother
  · rcases mem_append.mp hmem with hnew | hold
    · obtain ⟨snapshot, hsnap, rfl⟩ := mem_map.mp hnew
      refine ⟨c.worker, ?_, rfl⟩
      rw [hget, if_pos (hids snapshot hsnap)]
    · obtain ⟨worker, hworker, hplace⟩ := h.written entry hold
      by_cases heq : entry.2.workerId = id
      · refine ⟨c.worker, ?_, ?_⟩
        · rw [hget, if_pos heq]
        · rw [hplace, hcwd worker (heq ▸ hworker)]
      · refine ⟨worker, ?_, hplace⟩
        rw [hget, if_neg heq]
        exact hworker

end Store

section Calls

variable {r : WorkerRegistry π} {host : Host}

theorem createdWorker_written (host : Host) (counter : Nat) (cwd : String) (roots : List String)
    (autoRecover : Bool) :
    ∀ snapshot ∈ (createdWorker host counter cwd roots autoRecover).written,
      snapshot.workerId = workerIdOf (host.clock 0) counter := by
  intro snapshot hmem
  rw [mem_singleton.mp hmem]
  rfl

theorem call_cases (r : WorkerRegistry π) (host : Host) (request : WorkerCall) :
    (∃ cwd roots autoRecover, request = .create cwd roots autoRecover ∧
        (r.call place host request).1 = ({ r with counter := r.counter + 1 }).store place
          (workerIdOf (host.clock 0) (r.counter + 1))
          (createdWorker host (r.counter + 1) cwd roots autoRecover)) ∨
      (∃ id operation worker c, request = .on id operation ∧ r.workers.get id = some worker ∧
        operate host id operation ⟨worker, []⟩ = .ok c ∧
        (r.call place host request).1 = r.store place id c) ∨
      (r.call place host request).1 = r := by
  cases request with
  | create cwd roots autoRecover => exact .inl ⟨cwd, roots, autoRecover, rfl, rfl⟩
  | on id operation =>
    right
    cases hget : r.workers.get id with
    | none => exact .inr (by simp [call, hget])
    | some worker =>
      cases hop : operate host id operation ⟨worker, []⟩ with
      | error e => exact .inr (by simp [call, hget, hop])
      | ok c => exact .inl ⟨id, operation, worker, c, rfl, hget, hop, by simp [call, hget, hop]⟩

variable {id : String} {worker : Worker} {request : WorkerCall}

theorem Keyed.operated (h : Keyed place r) {operation : WorkerOperation} {c : Control}
    (hget : r.workers.get id = some worker) (hop : operate host id operation ⟨worker, []⟩ = .ok c) :
    c.worker.workerId = id ∧ ∀ snapshot ∈ c.written, snapshot.workerId = id := by
  have hevolves := operate_evolves hop
  have hnamed := h.named id worker hget
  refine ⟨hevolves.workerId.trans hnamed, fun snapshot hmem => ?_⟩
  rcases hevolves.written snapshot hmem with hold | hid
  · cases hold
  · exact hid.trans hnamed

theorem Keyed.call (h : Keyed place r) (request : WorkerCall) :
    Keyed place (r.call place host request).1 := by
  rcases call_cases place r host request with
    ⟨cwd, roots, autoRecover, rfl, heq⟩ | ⟨id, operation, worker, c, rfl, hget, hop, heq⟩ | heq
  · rw [heq]
    have hcount : Keyed place { r with counter := r.counter + 1 } := by
      refine ⟨h.named, fun id worker hget => ?_, h.written⟩
      obtain ⟨timestamp, n, hid, hle⟩ := h.counted id worker hget
      exact ⟨timestamp, n, hid, Nat.le_succ_of_le hle⟩
    refine hcount.store place rfl ⟨_, _, rfl, le_rfl⟩ (fun worker hget => ?_)
      (createdWorker_written host (r.counter + 1) cwd roots autoRecover)
    change r.workers.get _ = _ at hget
    rw [h.fresh] at hget
    cases hget
  · rw [heq]
    obtain ⟨hnamed, hids⟩ := h.operated place hget hop
    refine h.store place hnamed (h.counted id worker hget) (fun other hother => ?_) hids
    rw [hget, Option.some.injEq] at hother
    rw [← hother]
    exact (operate_evolves hop).cwd.symm
  · rw [heq]
    exact h

theorem Observable.call (hkeyed : Keyed place r) (h : Observable r) (hloud : Loud r (host, request)) :
    Observable (r.call place host request).1 := by
  rcases call_cases place r host request with
    ⟨cwd, roots, autoRecover, rfl, heq⟩ | ⟨id, operation, worker, c, rfl, hget, hop, heq⟩ | heq
  · rw [heq]
    intro other worker hother
    change (r.workers.insert _ _).get other = _ at hother
    rw [KeyMap.get_insert] at hother
    have hids := createdWorker_written host (r.counter + 1) cwd roots autoRecover
    split at hother
    · rename_i hself
      cases hother
      have hfresh : Fresh (createdWorker host (r.counter + 1) cwd roots autoRecover) :=
        pushEvent_fresh
      obtain ⟨latest, hhead, hlatest⟩ := hfresh.shown
      refine ⟨rfl, hfresh.status, latest, ?_, hlatest⟩
      rw [hself, lastWritten_store_self place hids, hhead]
      rfl
    · rename_i hne
      rw [lastWritten_store_of_ne place hne hids]
      exact h other worker hother
  · rw [heq]
    obtain ⟨hnamed, hids⟩ := hkeyed.operated place hget hop
    obtain ⟨hnumbered, hlogged, snapshot, hlast, hshows⟩ := h id worker hget
    intro other worker' hother
    change (r.workers.insert id c.worker).get other = _ at hother
    rw [KeyMap.get_insert] at hother
    split at hother
    · rename_i hself
      subst hself
      cases hother
      have hevolves := operate_evolves hop
      rw [lastWritten_store_self place hids]
      rcases operate_fresh hop (fun screenText hobserve =>
        hloud other screenText worker (congrArg _ hobserve) hget) with hfresh | rfl
      · obtain ⟨latest, hhead, hlatest⟩ := hfresh.shown
        exact ⟨hevolves.numbered hnumbered, hfresh.status, latest, by rw [hhead]; rfl, hlatest⟩
      · exact ⟨hnumbered, hlogged, snapshot, hlast, hshows⟩
    · rename_i hne
      rw [lastWritten_store_of_ne place hne hids]
      exact h other worker' hother
  · rw [heq]
    exact h

theorem not_observable_of_silent (hkeyed : Keyed place r) (h : Observable r) {screenText : String}
    (hget : r.workers.get id = some worker) (hsilent : RunsSilently host worker screenText) :
    ¬ Observable (r.call place host (.on id (.observe screenText))).1 := by
  obtain ⟨hcleared, hwritten⟩ := observe_silent host screenText worker hsilent
  have hop : operate host id (.observe screenText) ⟨worker, []⟩ =
      .ok (observe host screenText ⟨worker, []⟩) := rfl
  have hcall : (r.call place host (.on id (.observe screenText))).1 =
      r.store place id (observe host screenText ⟨worker, []⟩) := by
    simp [call, hget, hop]
  obtain ⟨-, hids⟩ := hkeyed.operated place hget hop
  obtain ⟨-, -, old, hold, holdShows⟩ := h id worker hget
  intro hafter
  rw [hcall] at hafter
  obtain ⟨-, -, snapshot, hlast, hshows⟩ :=
    hafter id _ (r.workers.get_insert_self id (observe host screenText ⟨worker, []⟩).worker)
  have hshown : snapshot.promptInFlight = false := hshows.promptInFlight.trans hcleared
  rw [lastWritten_store_self place hids, hold] at hlast
  cases hhead : (observe host screenText ⟨worker, []⟩).written.head? with
  | none =>
    rw [hhead] at hlast
    cases hlast
    rw [holdShows.promptInFlight, hsilent.inFlight] at hshown
    cases hshown
  | some latest =>
    rw [hhead] at hlast
    cases hlast
    rw [hwritten snapshot (mem_of_mem_head? hhead)] at hshown
    cases hshown

/-- No two workers have one state file. -/
def Separate (r : WorkerRegistry π) : Prop :=
  ∀ id id' worker worker', r.workers.get id = some worker → r.workers.get id' = some worker' →
    place worker.cwd = place worker'.cwd → id = id'

theorem Separate.call (h : Separate place r) (hapart : Apart place r (host, request)) :
    Separate place (r.call place host request).1 := by
  rcases call_cases place r host request with
    ⟨cwd, roots, autoRecover, rfl, heq⟩ | ⟨id, operation, worker, c, rfl, hget, hop, heq⟩ | heq
  · rw [heq]
    intro a b w w' ha hb hplace
    change (r.workers.insert _ _).get a = _ at ha
    change (r.workers.insert _ _).get b = _ at hb
    rw [KeyMap.get_insert] at ha hb
    split at ha <;> split at hb
    · rename_i hself hself'
      exact hself.trans hself'.symm
    · cases ha
      exact absurd hplace.symm (hapart cwd roots autoRecover rfl b w' hb)
    · cases hb
      exact absurd hplace (hapart cwd roots autoRecover rfl a w ha)
    · exact h a b w w' ha hb hplace
  · rw [heq]
    have hcwd : c.worker.cwd = worker.cwd := (operate_evolves hop).cwd
    -- Every worker of the map has the directory it had before.
    have hold (other : String) (w : Worker) (hw : (r.store place id c).workers.get other = some w) :
        ∃ w₀, r.workers.get other = some w₀ ∧ w₀.cwd = w.cwd := by
      change (r.workers.insert id c.worker).get other = _ at hw
      rw [KeyMap.get_insert] at hw
      split at hw
      · rename_i hself
        cases hw
        exact ⟨worker, hself ▸ hget, hcwd.symm⟩
      · exact ⟨w, hw, rfl⟩
    intro a b w w' ha hb hplace
    obtain ⟨w₀, hw₀, hcwd₀⟩ := hold a w ha
    obtain ⟨w₁, hw₁, hcwd₁⟩ := hold b w' hb
    exact h a b w₀ w₁ hw₀ hw₁ (by rw [hcwd₀, hcwd₁]; exact hplace)
  · rw [heq]
    exact h

theorem Separate.onDisk [DecidableEq π] (hkeyed : Keyed place r) (h : Separate place r) :
    OnDisk place r := by
  intro id worker hget
  refine newest_congr fun entry hmem => ?_
  obtain ⟨owner, howner, hplace⟩ := hkeyed.written entry hmem
  rw [decide_eq_decide]
  constructor
  · intro heq
    exact h _ id owner worker howner hget (hplace.symm.trans heq)
  · rintro rfl
    rw [howner, Option.some.injEq] at hget
    rw [hplace, hget]

theorem not_onDisk_of_shared [DecidableEq π] (hkeyed : Keyed place r) (h : Observable r)
    {cwd : String} {roots : List String} {autoRecover : Bool}
    (hget : r.workers.get id = some worker) (hplace : place worker.cwd = place cwd) :
    ¬ OnDisk place (r.call place host (.create cwd roots autoRecover)).1 := by
  obtain ⟨-, -, old, hold, holdShows⟩ := h id worker hget
  have hids := createdWorker_written host (r.counter + 1) cwd roots autoRecover
  have hne : id ≠ workerIdOf (host.clock 0) (r.counter + 1) := by
    rintro rfl
    rw [hkeyed.fresh] at hget
    cases hget
  intro hafter
  have hself := hafter id worker ((r.workers.get_insert_of_ne _ hne).trans hget)
  have hlast : (r.call place host (.create cwd roots autoRecover)).1.lastWritten id = some old :=
    (lastWritten_store_of_ne place hne hids).trans hold
  rw [hlast] at hself
  have hfile : (r.call place host (.create cwd roots autoRecover)).1.stateFile (place worker.cwd) =
      (createdWorker host (r.counter + 1) cwd roots autoRecover).written.head? := by
    unfold stateFile newest
    rw [hplace]
    change (List.find? _ ((place cwd, _) :: r.written)).map Prod.snd = _
    rw [find?_cons_of_pos (by simp)]
    rfl
  rw [hfile] at hself
  have hid := hids old (mem_of_mem_head? hself)
  rw [holdShows.workerId, hkeyed.named id worker hget] at hid
  exact hne hid

end Calls

theorem get_new (id : String) : (new : WorkerRegistry π).workers.get id = none := rfl

theorem keyed_new : Keyed place new := by
  refine ⟨fun id worker hget => ?_, fun id worker hget => ?_, fun entry hmem => ?_⟩
  · rw [get_new] at hget
    cases hget
  · rw [get_new] at hget
    cases hget
  · cases hmem

theorem observable_new : Observable (new : WorkerRegistry π) := by
  intro id worker hget
  rw [get_new] at hget
  cases hget

theorem separate_new : Separate place new := by
  intro id id' worker worker' hget
  rw [get_new] at hget
  cases hget

/-- In every run: the event log, the status of its last event and the state file
written last are those of the worker in every state reached, exactly when no
observation shows only that a prompt is being worked on. They are also what is
on the disk exactly when, besides, no worker is created where another one has
its state file. -/
theorem worker_state_observable_iff [DecidableEq π] (calls : List (Host × WorkerCall)) :
    (Along (step place) Observable new calls ↔ Meets (step place) Loud new calls) ∧
      (Along (step place) (fun r => Observable r ∧ OnDisk place r) new calls ↔
        Meets (step place) (fun r a => Loud r a ∧ Apart place r a) new calls) := by
  constructor
  · refine along_iff_meets (I := fun r => Keyed place r ∧ Observable r) (fun _ h => h.2) ?_ ?_
      ⟨keyed_new place, observable_new⟩ calls
    · rintro r ⟨host, request⟩ t ⟨hkeyed, hobservable⟩ hstep hloud
      cases hstep
      exact ⟨hkeyed.call place request, hobservable.call place hkeyed hloud⟩
    · rintro r ⟨host, request⟩ t ⟨hkeyed, hobservable⟩ hstep hloud
      cases hstep
      unfold Loud at hloud
      push Not at hloud
      obtain ⟨id, screenText, worker, rfl, hget, hsilent⟩ := hloud
      exact not_observable_of_silent place hkeyed hobservable hget hsilent
  · refine along_iff_meets (I := fun r => Keyed place r ∧ Observable r ∧ Separate place r)
      (fun _ h => ⟨h.2.1, h.2.2.onDisk place h.1⟩) ?_ ?_
      ⟨keyed_new place, observable_new, separate_new place⟩ calls
    · rintro r ⟨host, request⟩ t ⟨hkeyed, hobservable, hseparate⟩ hstep ⟨hloud, hapart⟩
      cases hstep
      exact ⟨hkeyed.call place request, hobservable.call place hkeyed hloud,
        hseparate.call place hapart⟩
    · rintro r ⟨host, request⟩ t ⟨hkeyed, hobservable, hseparate⟩ hstep hnot ⟨hafter, hdisk⟩
      cases hstep
      by_cases hloud : Loud r (host, request)
      · have hapart : ¬ Apart place r (host, request) := fun h => hnot ⟨hloud, h⟩
        unfold Apart at hapart
        push Not at hapart
        obtain ⟨cwd, roots, autoRecover, rfl, id, worker, hget, hplace⟩ := hapart
        exact not_onDisk_of_shared place hkeyed hobservable hget hplace hdisk
      · unfold Loud at hloud
        push Not at hloud
        obtain ⟨id, screenText, worker, rfl, hget, hsilent⟩ := hloud
        exact not_observable_of_silent place hkeyed hobservable hget hsilent hafter

/-- A host whose clock stands still and which resolves no path. -/
def stillHost : Host := ⟨fun _ => 0, fun _ => none⟩

def thinkingRun : List (Host × WorkerCall) :=
  [.create "/w" [] false, .on "worker_00000000_1" (.observe "ready for input"),
    .on "worker_00000000_1" (.sendPrompt (some "go") none),
    .on "worker_00000000_1" (.observe "thinking")].map fun call => (stillHost, call)

/-- Its state file goes on saying that the prompt is in flight. -/
theorem thinking_worker_not_observable :
    ¬ Along (step id) Observable (new : WorkerRegistry String) thinkingRun := by
  intro halong
  have hcheck : (run (step id) new thinkingRun).any (fun r =>
      ((r.workers.get "worker_00000000_1").any fun worker => !worker.promptInFlight) &&
        (r.lastWritten "worker_00000000_1").any fun snapshot => snapshot.promptInFlight) = true := by
    decide +kernel
  obtain ⟨r, hrun, hr⟩ := (Option.any_eq_true _ _).mp hcheck
  obtain ⟨hworker, hsnap⟩ := Bool.and_eq_true_iff.mp hr
  obtain ⟨worker, hget, hidle⟩ := (Option.any_eq_true _ _).mp hworker
  obtain ⟨snapshot, hlast, hflight⟩ := (Option.any_eq_true _ _).mp hsnap
  obtain ⟨-, -, shown, hshown, hshows⟩ := halong.last hrun _ worker hget
  rw [hlast, Option.some.injEq] at hshown
  subst hshown
  rw [hshows.promptInFlight] at hflight
  simp [hflight] at hidle

end WorkerRegistry

end DbClinic.Runtime.WorkerBoot
