import Mathlib.Tactic

/-!
Streams of interleaved blocks. A block is opened with a kind, carries deltas and
is closed; blocks with different indices may overlap. `replay` reads a stream
and keeps the state of every block; it accepts the streams in which, seen alone,
every block is one opening, its deltas and one closing.
-/

namespace DbClinic.Blocks

open List Function

inductive BlockEvent (I K : Type*) where
  | start (index : I) (kind : K)
  | delta (index : I) (kind : K)
  | stop (index : I)
  deriving DecidableEq

inductive BlockStatus (K : Type*) where
  | absent
  | opened (kind : K)
  | closed
  deriving DecidableEq

variable {I K : Type*} [DecidableEq I]

def BlockEvent.index : BlockEvent I K → I
  | start i _ => i
  | delta i _ => i
  | stop i => i

def BlockStatus.after : BlockStatus K → BlockEvent I K → Option (BlockStatus K)
  | .absent, .start _ k => some (.opened k)
  | .opened k, .delta _ _ => some (.opened k)
  | .opened _, .stop _ => some .closed
  | _, _ => none

/-- One event of a stream: it changes the state of its own block only. -/
def apply (blocks : I → BlockStatus K) (e : BlockEvent I K) : Option (I → BlockStatus K) :=
  ((blocks e.index).after e).map (Function.update blocks e.index)

def replay (blocks : I → BlockStatus K) : List (BlockEvent I K) → Option (I → BlockStatus K)
  | [] => some blocks
  | e :: rest => (apply blocks e).bind fun next => replay next rest

def replayOne (status : BlockStatus K) : List (BlockEvent I K) → Option (BlockStatus K)
  | [] => some status
  | e :: rest => (status.after e).bind fun next => replayOne next rest

def Complete (i : I) (es : List (BlockEvent I K)) : Prop :=
  es = [] ∨ ∃ (k : K) (deltas : List K), es = .start i k :: deltas.map (.delta i) ++ [.stop i]

def AllClosed (blocks : I → BlockStatus K) : Prop := ∀ i k, blocks i ≠ .opened k

attribute [grind] BlockEvent.index BlockStatus.after apply replay replayOne

omit [DecidableEq I] in
@[simp] theorem replayOne_nil (status : BlockStatus K) :
    replayOne status ([] : List (BlockEvent I K)) = some status := rfl

theorem replay_append (blocks : I → BlockStatus K) (xs ys : List (BlockEvent I K)) :
    replay blocks (xs ++ ys) = (replay blocks xs).bind fun next => replay next ys := by
  induction xs generalizing blocks with
  | nil => rfl
  | cons e rest ih =>
    rw [cons_append, replay, replay, Option.bind_assoc]
    exact congrArg _ (funext ih)

variable {i : I} {blocks : I → BlockStatus K} {es : List (BlockEvent I K)} {k : K}

theorem replay_append_none {xs : List (BlockEvent I K)} (h : replay blocks xs = none)
    (ys : List (BlockEvent I K)) :
    replay blocks (xs ++ ys) = none := by
  rw [replay_append, h, Option.bind_none]

theorem replay_start (h : blocks i = .absent) (k : K) (rest : List (BlockEvent I K)) :
    replay blocks (.start i k :: rest) = replay (Function.update blocks i (.opened k)) rest := by
  simp [replay, apply, BlockEvent.index, h, BlockStatus.after]

theorem replay_start_none (h : blocks i ≠ .absent) (k : K) (rest : List (BlockEvent I K)) :
    replay blocks (.start i k :: rest) = none := by
  cases hstatus : blocks i with
  | absent => exact absurd hstatus h
  | opened k' => simp [replay, apply, BlockEvent.index, hstatus, BlockStatus.after]
  | closed => simp [replay, apply, BlockEvent.index, hstatus, BlockStatus.after]

theorem replay_delta (h : blocks i = .opened k) (kind : K) (rest : List (BlockEvent I K)) :
    replay blocks (.delta i kind :: rest) = replay blocks rest := by
  have hsame : Function.update blocks i (.opened k) = blocks := by
    rw [← h, update_eq_self]
  simp [replay, apply, BlockEvent.index, h, BlockStatus.after, hsame]

theorem replay_delta_none (h : ∀ k, blocks i ≠ .opened k) (kind : K)
    (rest : List (BlockEvent I K)) :
    replay blocks (.delta i kind :: rest) = none := by
  cases hstatus : blocks i with
  | absent => simp [replay, apply, BlockEvent.index, hstatus, BlockStatus.after]
  | opened k => exact absurd hstatus (h k)
  | closed => simp [replay, apply, BlockEvent.index, hstatus, BlockStatus.after]

theorem replay_stop (h : blocks i = .opened k) (rest : List (BlockEvent I K)) :
    replay blocks (.stop i :: rest) = replay (Function.update blocks i .closed) rest := by
  simp [replay, apply, BlockEvent.index, h, BlockStatus.after]

theorem replay_stop_none (h : ∀ k, blocks i ≠ .opened k) (rest : List (BlockEvent I K)) :
    replay blocks (.stop i :: rest) = none := by
  cases hstatus : blocks i with
  | absent => simp [replay, apply, BlockEvent.index, hstatus, BlockStatus.after]
  | opened k => exact absurd hstatus (h k)
  | closed => simp [replay, apply, BlockEvent.index, hstatus, BlockStatus.after]

theorem replay_stops {is : List I} (hnodup : is.Nodup)
    (hopen : ∀ i ∈ is, ∃ k, blocks i = .opened k) :
    replay blocks (is.map .stop) = some fun i => if i ∈ is then .closed else blocks i := by
  induction is generalizing blocks with
  | nil => simp [replay]
  | cons i rest ih =>
    rw [nodup_cons] at hnodup
    obtain ⟨k, hk⟩ := hopen i mem_cons_self
    rw [map_cons, replay_stop hk, ih hnodup.2]
    · refine congrArg some (funext fun j => ?_)
      rcases eq_or_ne j i with rfl | hne
      · simp [hnodup.1]
      · simp [hne]
    · intro j hj
      have hne : j ≠ i := fun heq => hnodup.1 (heq ▸ hj)
      rw [update_of_ne hne]
      exact hopen j (mem_cons_of_mem i hj)

theorem replay_stuck {next : I → BlockStatus K} (hnot : ∀ k, blocks i ≠ .opened k)
    (hstart : ∀ k, .start i k ∉ es) (h : replay blocks es = some next) :
    next i = blocks i ∧ ∀ e ∈ es, e.index ≠ i := by
  induction es generalizing blocks with
  | nil =>
    cases h
    exact ⟨rfl, nofun⟩
  | cons e rest ih =>
    have hne : e.index ≠ i := by
      rintro rfl
      cases e with
      | start j k => exact hstart k mem_cons_self
      | delta j k =>
        have hj : ∀ k, blocks j ≠ .opened k := hnot
        rw [replay_delta_none hj] at h
        cases h
      | stop j =>
        have hj : ∀ k, blocks j ≠ .opened k := hnot
        rw [replay_stop_none hj] at h
        cases h
    rw [replay, Option.bind_eq_some_iff] at h
    obtain ⟨middle, happly, hrest⟩ := h
    obtain ⟨status, -, rfl⟩ := Option.map_eq_some_iff.mp happly
    have hsame : Function.update blocks e.index status i = blocks i :=
      update_of_ne hne.symm _ _
    obtain ⟨hnext, hmem⟩ := ih (by rw [hsame]; exact hnot)
      (fun k hk => hstart k (mem_cons_of_mem e hk)) hrest
    refine ⟨hnext.trans hsame, fun d hd => ?_⟩
    rcases mem_cons.mp hd with rfl | hd
    · exact hne
    · exact hmem d hd

theorem replay_eq_some_iff (blocks next : I → BlockStatus K) (es : List (BlockEvent I K)) :
    replay blocks es = some next ↔
      ∀ i, replayOne (blocks i) (es.filter fun e => e.index = i) = some (next i) := by
  induction es generalizing blocks with
  | nil =>
    simp only [replay, filter_nil, replayOne_nil, Option.some.injEq]
    exact funext_iff
  | cons e rest ih =>
    have hfilter (i : I) : (e :: rest).filter (fun d => d.index = i) =
        if e.index = i then e :: rest.filter (fun d => d.index = i)
        else rest.filter fun d => d.index = i := by
      by_cases h : e.index = i <;> simp [h]
    rw [replay]
    cases hafter : (blocks e.index).after e with
    | none =>
      have happly : apply blocks e = none := by simp [apply, hafter]
      rw [happly, Option.bind_none]
      constructor
      · intro h
        cases h
      · intro h
        have hself := h e.index
        rw [hfilter, if_pos rfl, replayOne, hafter] at hself
        cases hself
    | some status =>
      have happly : apply blocks e = some (Function.update blocks e.index status) := by
        simp [apply, hafter]
      rw [happly, Option.bind_some, ih]
      refine forall_congr' fun i => ?_
      rw [hfilter]
      by_cases h : e.index = i
      · subst h
        rw [if_pos rfl, replayOne, hafter, Option.bind_some, update_self]
      · rw [if_neg h, update_of_ne fun heq => h heq.symm]

omit [DecidableEq I] in
theorem replayOne_closed {status : BlockStatus K} :
    replayOne .closed es = some status ↔ es = [] ∧ status = .closed := by
  cases es with
  | nil => simp [eq_comm]
  | cons e rest => cases e <;> simp [replayOne, BlockStatus.after]

omit [DecidableEq I] in
theorem replayOne_opened (hes : ∀ e ∈ es, e.index = i) :
    replayOne (.opened k) es = some .closed ↔
      ∃ deltas : List K, es = deltas.map (.delta i) ++ [.stop i] := by
  induction es with
  | nil => simp [replayOne]
  | cons e rest ih =>
    have hindex := hes e mem_cons_self
    have hrest := ih fun d hd => hes d (mem_cons_of_mem e hd)
    cases e with
    | start j k' =>
      constructor
      · intro h
        cases h
      · rintro ⟨deltas, heq⟩
        cases deltas <;> simp at heq
    | delta j k' =>
      cases hindex
      change replayOne (.opened k) rest = _ ↔ _
      rw [hrest]
      constructor
      · rintro ⟨deltas, rfl⟩
        exact ⟨k' :: deltas, rfl⟩
      · rintro ⟨deltas, heq⟩
        cases deltas with
        | nil => simp at heq
        | cons d deltas =>
          rw [map_cons, cons_append, List.cons.injEq] at heq
          exact ⟨deltas, heq.2⟩
    | stop j =>
      cases hindex
      change replayOne .closed rest = _ ↔ _
      rw [replayOne_closed]
      constructor
      · rintro ⟨rfl, -⟩
        exact ⟨[], rfl⟩
      · rintro ⟨deltas, heq⟩
        cases deltas with
        | nil =>
          rw [map_nil, nil_append, List.cons.injEq] at heq
          exact ⟨heq.2, rfl⟩
        | cons d deltas => simp at heq

omit [DecidableEq I] in
theorem replayOne_opened_ne_absent (es : List (BlockEvent I K)) :
    replayOne (.opened k) es ≠ some .absent := by
  induction es with
  | nil => simp
  | cons e rest ih =>
    cases e with
    | start j k' => simp [replayOne, BlockStatus.after]
    | delta j k' => exact ih
    | stop j =>
      intro h
      have hclosed := replayOne_closed.mp h
      cases hclosed.2

omit [DecidableEq I] in
theorem replayOne_absent (h : replayOne .absent es = some .absent) : es = [] := by
  cases es with
  | nil => rfl
  | cons e rest =>
    cases e with
    | start j k => exact absurd h (replayOne_opened_ne_absent rest)
    | delta j k => cases h
    | stop j => cases h

omit [DecidableEq I] in
theorem complete_iff_replayOne (hes : ∀ e ∈ es, e.index = i) :
    Complete i es ↔ ∃ status, replayOne .absent es = some status ∧ ∀ k, status ≠ .opened k := by
  cases es with
  | nil => exact ⟨fun _ => ⟨.absent, rfl, nofun⟩, fun _ => .inl rfl⟩
  | cons e rest =>
    have hrest : ∀ d ∈ rest, d.index = i := fun d hd => hes d (mem_cons_of_mem e hd)
    have hindex := hes e mem_cons_self
    cases e with
    | start j k =>
      cases hindex
      change _ ↔ ∃ status, replayOne (.opened k) rest = some status ∧ _
      constructor
      · rintro (hnil | ⟨k', deltas, heq⟩)
        · cases hnil
        · simp only [cons_append, List.cons.injEq, BlockEvent.start.injEq] at heq
          obtain ⟨⟨-, rfl⟩, hrest'⟩ := heq
          exact ⟨.closed, (replayOne_opened hrest).mpr ⟨deltas, hrest'⟩, nofun⟩
      · rintro ⟨status, hreplay, hnot⟩
        cases status with
        | absent => exact absurd hreplay (replayOne_opened_ne_absent rest)
        | opened k' => exact absurd rfl (hnot k')
        | closed =>
          obtain ⟨deltas, rfl⟩ := (replayOne_opened hrest).mp hreplay
          exact .inr ⟨k, deltas, rfl⟩
    | delta j k =>
      constructor
      · rintro (hnil | ⟨k', deltas, heq⟩)
        · cases hnil
        · simp at heq
      · rintro ⟨status, hreplay, -⟩
        cases hreplay
    | stop j =>
      constructor
      · rintro (hnil | ⟨k', deltas, heq⟩)
        · cases hnil
        · simp at heq
      · rintro ⟨status, hreplay, -⟩
        cases hreplay

theorem replay_absent {next : I → BlockStatus K} (h : replay (fun _ => .absent) es = some next)
    (hi : next i = .absent) :
    ∀ e ∈ es, e.index ≠ i := by
  intro e he heq
  have hone := (replay_eq_some_iff _ next es).mp h i
  rw [hi] at hone
  have hmem : e ∈ es.filter fun e => e.index = i :=
    mem_filter.mpr ⟨he, decide_eq_true heq⟩
  rw [replayOne_absent hone] at hmem
  cases hmem

theorem replay_closed_iff (es : List (BlockEvent I K)) :
    (∃ next, replay (fun _ => .absent) es = some next ∧ AllClosed next) ↔
      ∀ i, Complete i (es.filter fun e => e.index = i) := by
  have hown (i : I) : ∀ e ∈ es.filter (fun e => e.index = i), e.index = i := by
    intro e he
    simpa using (mem_filter.mp he).2
  constructor
  · rintro ⟨next, hreplay, hclosed⟩ i
    have hone := (replay_eq_some_iff _ next es).mp hreplay i
    exact (complete_iff_replayOne (hown i)).mpr ⟨next i, hone, hclosed i⟩
  · intro h
    choose next hone hclosed using fun i => (complete_iff_replayOne (hown i)).mp (h i)
    exact ⟨next, (replay_eq_some_iff _ next es).mpr hone, hclosed⟩

end DbClinic.Blocks
