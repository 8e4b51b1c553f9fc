import Mathlib.Data.List.Perm.Basic
import DbClinic.Lib.KeyMap

/-!
Values that are assembled from interleaved fragments. A value is started under a
key, fragments of the key extend it, and a stop of the key completes it, with a
note of the moment. The values that are not completed yet are kept in a map.
-/

namespace DbClinic.Assembly

open List

inductive Piece (K V F N : Type*) where
  | start (key : K) (value : V)
  | fragment (key : K) (fragment : F)
  | stop (key : K) (note : N)

variable {K V F N : Type*} [DecidableEq K] (extend : V → F → V)

/-- The values that are open after a piece, and what it completes. -/
def step (pending : KeyMap K V) : Piece K V F N → KeyMap K V × Option (V × N)
  | .start key value => (pending.insert key value, none)
  | .fragment key fragment =>
    match pending.get key with
    | some value => (pending.update key (extend value fragment), none)
    | none => (pending, none)
  | .stop key note => (pending.erase key, (pending.get key).map fun value => (value, note))

def run (pending : KeyMap K V) : List (Piece K V F N) → KeyMap K V
  | [] => pending
  | piece :: rest => run (step extend pending piece).1 rest

def completed (pending : KeyMap K V) : List (Piece K V F N) → List (V × N)
  | [] => []
  | piece :: rest =>
    (step extend pending piece).2.toList ++ completed (step extend pending piece).1 rest

theorem completed_append (pending : KeyMap K V) (xs ys : List (Piece K V F N)) :
    completed extend pending (xs ++ ys) =
      completed extend pending xs ++ completed extend (run extend pending xs) ys := by
  induction xs generalizing pending with
  | nil => rfl
  | cons x xs ih =>
    simp only [cons_append, completed, run]
    rw [ih, append_assoc]

theorem run_append (pending : KeyMap K V) (xs ys : List (Piece K V F N)) :
    run extend pending (xs ++ ys) = run extend (run extend pending xs) ys := by
  induction xs generalizing pending with
  | nil => rfl
  | cons x xs ih => exact ih _

def outcome (key : K) (value : V) : List (Piece K V F N) → V × Option N
  | [] => (value, none)
  | .start k _ :: rest => if k = key then (value, none) else outcome key value rest
  | .fragment k fragment :: rest =>
    outcome key (if k = key then extend value fragment else value) rest
  | .stop k note :: rest => if k = key then (value, some note) else outcome key value rest

def started : List (Piece K V F N) → List (V × Option N)
  | [] => []
  | .start key value :: rest => outcome extend key value rest :: started rest
  | .fragment _ _ :: rest => started rest
  | .stop _ _ :: rest => started rest

def finished (o : V × Option N) : Option (V × N) := o.2.map fun note => (o.1, note)

/-- What becomes of the open values. -/
def outcomes (entries : List (K × V)) (pieces : List (Piece K V F N)) : List (V × Option N) :=
  entries.map fun e => outcome extend e.1 e.2 pieces

theorem entries_perm (m : KeyMap K V) (key : K) :
    m.entries.Perm
      (((m.get key).map fun value => (key, value)).toList ++ (m.erase key).entries) := by
  have hsplit := (filter_append_perm (fun e : K × V => decide (e.1 = key)) m.entries).symm
  have hself : (m.entries.filter fun e => decide (e.1 = key)).Perm
      ((m.get key).map fun value => (key, value)).toList := by
    cases hget : m.get key with
    | none =>
      have hnil : m.entries.filter (fun e => decide (e.1 = key)) = [] := by
        rw [filter_eq_nil_iff]
        rintro ⟨k, v⟩ hmem hk
        rw [decide_eq_true_eq] at hk
        subst hk
        rw [(m.get_eq_some_iff k v).mpr hmem] at hget
        cases hget
      rw [hnil]
      exact List.Perm.refl _
    | some value =>
      have hmem := (m.get_eq_some_iff key value).mp hget
      have hnodup : m.entries.Nodup := List.Nodup.of_map _ m.nodup
      apply (perm_ext_iff_of_nodup (hnodup.filter _) (nodup_singleton _)).mpr
      rintro ⟨k, v⟩
      rw [mem_filter, decide_eq_true_eq]
      constructor
      · rintro ⟨he, hk⟩
        rw [inj_on_of_nodup_map m.nodup he hmem hk]
        exact mem_singleton_self _
      · intro he
        rw [mem_singleton.mp he]
        exact ⟨hmem, rfl⟩
  exact hsplit.trans (hself.append_right _)

theorem outcomes_perm (m : KeyMap K V) (key : K) (pieces : List (Piece K V F N)) :
    (outcomes extend m.entries pieces).Perm
      (((m.get key).map fun value => outcome extend key value pieces).toList ++
        outcomes extend (m.erase key).entries pieces) := by
  have hperm := (entries_perm m key).map fun e => outcome extend e.1 e.2 pieces
  rw [map_append] at hperm
  cases hget : m.get key with
  | none =>
    rw [hget] at hperm
    exact hperm
  | some value =>
    rw [hget] at hperm
    exact hperm

theorem outcomes_erase {m : KeyMap K V} {key : K} {piece : Piece K V F N}
    {rest : List (Piece K V F N)}
    (h : ∀ k, k ≠ key → ∀ value, outcome extend k value (piece :: rest) =
      outcome extend k value rest) :
    outcomes extend (m.erase key).entries (piece :: rest) =
      outcomes extend (m.erase key).entries rest := by
  apply map_congr_left
  intro e he
  have hne : e.1 ≠ key := by
    have hkeep := (mem_filter.mp he).2
    simpa using hkeep
  exact h e.1 hne e.2

theorem outcomes_fragment (pending : KeyMap K V) (key : K) (fragment : F)
    (rest : List (Piece K V F N)) :
    outcomes extend (step extend pending (.fragment key fragment : Piece K V F N)).1.entries rest =
      outcomes extend pending.entries (.fragment key fragment :: rest) := by
  unfold outcomes
  cases hget : pending.get key with
  | none =>
    have hstep : (step extend pending (.fragment key fragment : Piece K V F N)).1 = pending := by
      rw [step, hget]
    rw [hstep]
    apply map_congr_left
    intro e he
    have hne : key ≠ e.1 := by
      rintro rfl
      rw [(pending.get_eq_some_iff e.1 e.2).mpr he] at hget
      cases hget
    rw [outcome, if_neg hne]
  | some value =>
    have hents : (step extend pending (.fragment key fragment : Piece K V F N)).1.entries =
        pending.entries.map fun e => if e.1 = key then (e.1, extend value fragment) else e := by
      rw [step, hget]
      rfl
    rw [hents, map_map]
    apply map_congr_left
    intro e he
    rw [Function.comp_apply, outcome]
    by_cases hkey : e.1 = key
    · have hval : e.2 = value := by
        have hsome := (pending.get_eq_some_iff e.1 e.2).mpr he
        rw [hkey, hget] at hsome
        exact (Option.some.inj hsome).symm
      rw [if_pos hkey, if_pos hkey.symm, hval]
    · rw [if_neg hkey, if_neg fun h => hkey h.symm]

theorem completed_perm (pending : KeyMap K V) (pieces : List (Piece K V F N)) :
    (completed extend pending pieces).Perm
      ((outcomes extend pending.entries pieces ++ started extend pieces).filterMap finished) := by
  induction pieces generalizing pending with
  | nil =>
    have hnone : (outcomes extend pending.entries ([] : List (Piece K V F N))).filterMap
        finished = [] := by
      rw [filterMap_eq_nil_iff]
      intro o ho
      obtain ⟨e, -, rfl⟩ := mem_map.mp ho
      rfl
    rw [started, append_nil, hnone]
    exact List.Perm.refl _
  | cons piece rest ih =>
    cases piece with
    | start key value =>
      have hothers : outcomes extend (pending.erase key).entries
          (.start key value :: rest) = outcomes extend (pending.erase key).entries rest := by
        apply outcomes_erase
        intro k hk v
        rw [outcome, if_neg hk.symm]
      have hlost : (((pending.get key).map fun v => outcome extend key v
          (.start key value :: rest)).toList).filterMap finished = [] := by
        cases pending.get key with
        | none => rfl
        | some v => simp [outcome, finished]
      have hold := (outcomes_perm extend pending key (.start key value :: rest)).filterMap finished
      rw [hothers, filterMap_append, hlost, nil_append] at hold
      refine (ih (pending.insert key value)).trans ?_
      have hnew : outcomes extend (pending.insert key value).entries rest =
          outcome extend key value rest :: outcomes extend (pending.erase key).entries rest := rfl
      rw [hnew, started, cons_append, filterMap_append]
      refine List.Perm.trans ?_ (hold.symm.append_right _)
      rw [← filterMap_append]
      exact (perm_middle.symm).filterMap finished
    | fragment key fragment =>
      have hnone : (step extend pending (.fragment key fragment : Piece K V F N)).2 = none := by
        rw [step]
        split <;> rfl
      rw [completed, started, hnone, ← outcomes_fragment]
      exact ih _
    | stop key note =>
      have hothers : outcomes extend (pending.erase key).entries
          (.stop key note :: rest) = outcomes extend (pending.erase key).entries rest := by
        apply outcomes_erase
        intro k hk v
        rw [outcome, if_neg hk.symm]
      have hold := (outcomes_perm extend pending key (.stop key note :: rest)).filterMap finished
      rw [hothers, filterMap_append] at hold
      have hdone : (((pending.get key).map fun v => outcome extend key v
          (.stop key note :: rest)).toList).filterMap finished =
          ((pending.get key).map fun v => (v, note)).toList := by
        cases pending.get key with
        | none => rfl
        | some v => simp [outcome, finished]
      rw [hdone] at hold
      rw [started, filterMap_append]
      refine List.Perm.trans ?_ (hold.symm.append_right _)
      rw [append_assoc, ← filterMap_append]
      exact (ih (pending.erase key)).append_left _

theorem completed_empty_perm (pieces : List (Piece K V F N)) :
    (completed extend KeyMap.empty pieces).Perm ((started extend pieces).filterMap finished) :=
  completed_perm extend KeyMap.empty pieces

section Stopped

omit [DecidableEq K]

def Stopped (key : K) (pieces : List (Piece K V F N)) : Prop :=
  ∃ between note rest, pieces = between ++ .stop key note :: rest ∧ ∀ v, .start key v ∉ between

def EachStopped (pieces : List (Piece K V F N)) : Prop :=
  ∀ before key value after, pieces = before ++ .start key value :: after → Stopped key after

def SomeStopped (pieces : List (Piece K V F N)) : Prop :=
  ∃ before key value after, pieces = before ++ .start key value :: after ∧ Stopped key after

theorem not_stopped_nil (key : K) : ¬Stopped key ([] : List (Piece K V F N)) := by
  rintro ⟨between, note, rest, hpieces, -⟩
  simp at hpieces

theorem not_stopped_start (key : K) (value : V) (rest : List (Piece K V F N)) :
    ¬Stopped key (.start key value :: rest) := by
  rintro ⟨between, note, rest', hpieces, hbetween⟩
  cases between with
  | nil => cases hpieces
  | cons piece between =>
    cases (List.cons.inj hpieces).1
    exact hbetween value mem_cons_self

theorem stopped_stop (key : K) (note : N) (rest : List (Piece K V F N)) :
    Stopped key (.stop key note :: rest) :=
  ⟨[], note, rest, rfl, fun _ => not_mem_nil⟩

theorem stopped_cons_iff {key : K} {piece : Piece K V F N} {rest : List (Piece K V F N)}
    (hstart : ∀ v, piece ≠ .start key v) (hstop : ∀ note, piece ≠ .stop key note) :
    Stopped key (piece :: rest) ↔ Stopped key rest := by
  constructor
  · rintro ⟨between, note, rest', hpieces, hbetween⟩
    cases between with
    | nil => exact absurd (List.cons.inj hpieces).1 (hstop note)
    | cons first between =>
      exact ⟨between, note, rest', (List.cons.inj hpieces).2,
        fun v hv => hbetween v (mem_cons_of_mem first hv)⟩
  · rintro ⟨between, note, rest', rfl, hbetween⟩
    refine ⟨piece :: between, note, rest', rfl, fun v hv => ?_⟩
    rcases mem_cons.mp hv with hv | hv
    · exact hstart v hv.symm
    · exact hbetween v hv

end Stopped

theorem outcome_stopped_iff (key : K) (value : V) (pieces : List (Piece K V F N)) :
    (outcome extend key value pieces).2 ≠ none ↔ Stopped key pieces := by
  induction pieces generalizing value with
  | nil => exact iff_of_false (fun h => h rfl) (not_stopped_nil key)
  | cons piece rest ih =>
    cases piece with
    | start k w =>
      rw [outcome]
      by_cases hk : k = key
      · subst hk
        rw [if_pos rfl]
        exact iff_of_false (fun h => h rfl) (not_stopped_start k w rest)
      · rw [if_neg hk, ih, stopped_cons_iff]
        · rintro v heq
          cases heq
          exact hk rfl
        · nofun
    | fragment k fragment =>
      rw [outcome, ih, stopped_cons_iff nofun nofun]
    | stop k note =>
      rw [outcome]
      by_cases hk : k = key
      · subst hk
        rw [if_pos rfl]
        exact iff_of_true (fun h => by cases h) (stopped_stop k note rest)
      · rw [if_neg hk, ih, stopped_cons_iff]
        · nofun
        · rintro n heq
          cases heq
          exact hk rfl

theorem mem_started_iff {o : V × Option N} {pieces : List (Piece K V F N)} :
    o ∈ started extend pieces ↔ ∃ before key value after,
      pieces = before ++ .start key value :: after ∧ o = outcome extend key value after := by
  induction pieces with
  | nil => simp [started]
  | cons piece rest ih =>
    have hlater : (∃ before key value after,
        piece :: rest = before ++ Piece.start key value :: after ∧
          o = outcome extend key value after) ↔
        (∃ key value, piece = .start key value ∧ o = outcome extend key value rest) ∨
          o ∈ started extend rest := by
      rw [ih]
      constructor
      · rintro ⟨before, key, value, after, hpieces, ho⟩
        cases before with
        | nil =>
          obtain ⟨rfl, rfl⟩ := List.cons.inj hpieces
          exact .inl ⟨key, value, rfl, ho⟩
        | cons first before =>
          obtain ⟨rfl, rfl⟩ := List.cons.inj hpieces
          exact .inr ⟨before, key, value, after, rfl, ho⟩
      · rintro (⟨key, value, rfl, ho⟩ | ⟨before, key, value, after, rfl, ho⟩)
        · exact ⟨[], key, value, rest, rfl, ho⟩
        · exact ⟨piece :: before, key, value, after, rfl, ho⟩
    rw [hlater]
    cases piece with
    | start key value =>
      rw [started, mem_cons]
      refine or_congr_left ⟨fun ho => ⟨key, value, rfl, ho⟩, ?_⟩
      rintro ⟨key', value', heq, ho⟩
      cases heq
      exact ho
    | fragment key fragment => simp [started]
    | stop key note => simp [started]

theorem eachStopped_iff (pieces : List (Piece K V F N)) :
    EachStopped pieces ↔ ∀ o ∈ started extend pieces, o.2 ≠ none := by
  constructor
  · intro hstopped o ho
    obtain ⟨before, key, value, after, hpieces, rfl⟩ := (mem_started_iff extend).mp ho
    exact (outcome_stopped_iff extend key value after).mpr (hstopped before key value after hpieces)
  · intro hall before key value after hpieces
    exact (outcome_stopped_iff extend key value after).mp
      (hall _ ((mem_started_iff extend).mpr ⟨before, key, value, after, hpieces, rfl⟩))

theorem someStopped_iff (pieces : List (Piece K V F N)) :
    SomeStopped pieces ↔ completed extend KeyMap.empty pieces ≠ [] := by
  have hperm := completed_empty_perm extend pieces
  constructor
  · rintro ⟨before, key, value, after, hpieces, hstopped⟩ hnil
    rw [hnil] at hperm
    obtain ⟨note, hnote⟩ := Option.ne_none_iff_exists'.mp
      ((outcome_stopped_iff extend key value after).mpr hstopped)
    have hmem : ((outcome extend key value after).1, note) ∈
        (started extend pieces).filterMap finished := by
      apply mem_filterMap.mpr
      exact ⟨_, (mem_started_iff extend).mpr ⟨before, key, value, after, hpieces, rfl⟩,
        by rw [finished, hnote, Option.map_some]⟩
    rw [nil_perm.mp hperm] at hmem
    cases hmem
  · intro hne
    obtain ⟨c, hc⟩ := exists_mem_of_ne_nil _ hne
    obtain ⟨o, ho, hfinished⟩ := mem_filterMap.mp (hperm.mem_iff.mp hc)
    obtain ⟨before, key, value, after, hpieces, rfl⟩ := (mem_started_iff extend).mp ho
    refine ⟨before, key, value, after, hpieces, (outcome_stopped_iff extend key value after).mp ?_⟩
    intro hnone
    rw [finished, hnone] at hfinished
    cases hfinished

theorem completed_all_iff (pieces : List (Piece K V F N)) :
    ((completed extend KeyMap.empty pieces).map fun c => (c.1, some c.2)).Perm
        (started extend pieces) ↔ EachStopped pieces := by
  rw [eachStopped_iff extend]
  have hperm := (completed_empty_perm extend pieces).map fun c => (c.1, some c.2)
  constructor
  · intro hall o ho
    obtain ⟨c, -, rfl⟩ := mem_map.mp (hall.mem_iff.mpr ho)
    exact fun h => by cases h
  · intro hstopped
    have hsame : ((started extend pieces).filterMap finished).map (fun c => (c.1, some c.2)) =
        started extend pieces := by
      generalize started extend pieces = os at hstopped
      induction os with
      | nil => rfl
      | cons o os ih =>
        obtain ⟨note, hnote⟩ := Option.ne_none_iff_exists'.mp (hstopped o mem_cons_self)
        obtain ⟨value, rest⟩ := o
        cases hnote
        have hfirst : finished (value, some note) = some (value, note) := rfl
        rw [filterMap_cons_some hfirst, map_cons,
          ih fun o' ho' => hstopped o' (mem_cons_of_mem _ ho')]
    rw [hsame] at hperm
    exact hperm

end DbClinic.Assembly
