import Mathlib.Tactic

/-!
Executable transition systems: a partial step function, the run of a schedule
of actions, and the two ways a claim speaks about a run. `Along` says what
holds in every state the run reaches, `Meets` says what every step of it was
checked for. The induction that leads from one to the other is done here once.
-/

namespace DbClinic.Transition

variable {σ α : Type*}

/-- The state after a schedule of actions. A disabled action ends the run
without a state. -/
def run (step : σ → α → Option σ) : σ → List α → Option σ
  | s, [] => some s
  | s, a :: rest => (step s a).bind fun t => run step t rest

/-- Every state of the run, the first one included, satisfies `p`. -/
def Along (step : σ → α → Option σ) (p : σ → Prop) : σ → List α → Prop
  | s, [] => p s
  | s, a :: rest => p s ∧ ∀ t, step s a = some t → Along step p t rest

/-- Every step the run takes is taken in a state in which `ok` allows it. -/
def Meets (step : σ → α → Option σ) (ok : σ → α → Prop) : σ → List α → Prop
  | _, [] => True
  | s, a :: rest => ∀ t, step s a = some t → ok s a ∧ Meets step ok t rest

/-- A schedule can be checked by running it. -/
instance Meets.decidable (step : σ → α → Option σ) (ok : σ → α → Prop)
    [∀ s a, Decidable (ok s a)] : ∀ s acts, Decidable (Meets step ok s acts)
  | _, [] => .isTrue trivial
  | s, a :: rest =>
    match h : step s a with
    | none => .isTrue fun t ht => by rw [h] at ht; cases ht
    | some t =>
      have := Meets.decidable step ok t rest
      decidable_of_iff (ok s a ∧ Meets step ok t rest) ⟨fun hboth u hu => by
        rw [h] at hu
        cases hu
        exact hboth, fun hall => hall t h⟩

section Rules

variable {step : σ → α → Option σ} {ok : σ → α → Prop} {p : σ → Prop}

theorem run_cons (s : σ) (a : α) (rest : List α) :
    run step s (a :: rest) = (step s a).bind fun t => run step t rest := rfl

theorem run_append (s : σ) (acts rest : List α) :
    run step s (acts ++ rest) = (run step s acts).bind fun t => run step t rest := by
  induction acts generalizing s with
  | nil => rfl
  | cons a acts ih =>
    rw [List.cons_append, run_cons, run_cons, Option.bind_assoc]
    exact congrArg _ (funext ih)

variable {s : σ} {acts : List α} {I : σ → Prop}

theorem Along.head (h : Along step p s acts) : p s := by
  cases acts with
  | nil => exact h
  | cons a rest => exact h.1

theorem Along.mono {q : σ → Prop} (hpq : ∀ s, p s → q s) (h : Along step p s acts) :
    Along step q s acts := by
  induction acts generalizing s with
  | nil => exact hpq s h
  | cons a rest ih => exact ⟨hpq s h.1, fun t ht => ih (h.2 t ht)⟩

theorem Along.last {t : σ} (h : Along step p s acts) (hrun : run step s acts = some t) : p t := by
  induction acts generalizing s with
  | nil =>
    cases hrun
    exact h
  | cons a rest ih =>
    rw [run_cons, Option.bind_eq_some_iff] at hrun
    obtain ⟨u, hstep, hrest⟩ := hrun
    exact ih (h.2 u hstep) hrest

/-- The run lemma: an invariant that every allowed step preserves holds in
every state of a run whose steps are all allowed. -/
theorem Meets.along (hstep : ∀ s a t, I s → step s a = some t → ok s a → I t) (hinit : I s)
    (hmeets : Meets step ok s acts) :
    Along step I s acts := by
  induction acts generalizing s with
  | nil => exact hinit
  | cons a rest ih =>
    refine ⟨hinit, fun t ht => ?_⟩
    obtain ⟨hok, hrest⟩ := hmeets t ht
    exact ih (hstep s a t hinit ht hok) hrest

theorem Meets.mono {ok' : σ → α → Prop} (h : ∀ s a, ok s a → ok' s a)
    (hmeets : Meets step ok s acts) :
    Meets step ok' s acts := by
  induction acts generalizing s with
  | nil => trivial
  | cons a rest ih => exact fun t ht => ⟨h s a (hmeets t ht).1, ih (hmeets t ht).2⟩

theorem Meets.of_forall (h : ∀ s a, ok s a) (s : σ) (acts : List α) :
    Meets step ok s acts := by
  induction acts generalizing s with
  | nil => trivial
  | cons a rest ih => exact fun t _ => ⟨h s a, ih t⟩

theorem Meets.of_mem {q : α → Prop} (s : σ) (h : ∀ a ∈ acts, q a) :
    Meets step (fun _ a => q a) s acts := by
  induction acts generalizing s with
  | nil => trivial
  | cons a rest ih => exact fun t _ => ⟨h a (by simp), ih t fun b hb => h b (by simp [hb])⟩

/-- When an allowed step keeps the invariant, and a forbidden one from a domain
breaks `p` at once, the runs that meet `ok` are exactly those inside the domain
along which `p` holds. -/
theorem meets_iff_along_and_meets {domain : σ → α → Prop} (hp : ∀ s, I s → p s)
    (hgood : ∀ s a t, I s → step s a = some t → ok s a → I t) (hdomain : ∀ s a, ok s a → domain s a)
    (hbad : ∀ s a t, I s → step s a = some t → domain s a → ¬ ok s a → ¬ p t) (hinit : I s)
    (acts : List α) :
    Meets step ok s acts ↔ Along step p s acts ∧ Meets step domain s acts := by
  constructor
  · intro hmeets
    exact ⟨(hmeets.along hgood hinit).mono hp, hmeets.mono hdomain⟩
  · rintro ⟨halong, hinside⟩
    induction acts generalizing s with
    | nil => trivial
    | cons a rest ih =>
      intro t ht
      obtain ⟨hin, hrest⟩ := hinside t ht
      have hok : ok s a := by
        by_contra hnot
        exact hbad s a t hinit ht hin hnot (halong.2 t ht).head
      exact ⟨hok, ih (hgood s a t hinit ht hok) (halong.2 t ht) hrest⟩

/-- Without a domain: `p` holds along exactly the runs that meet `ok`. -/
theorem along_iff_meets (hp : ∀ s, I s → p s)
    (hgood : ∀ s a t, I s → step s a = some t → ok s a → I t)
    (hbad : ∀ s a t, I s → step s a = some t → ¬ ok s a → ¬ p t) (hinit : I s) (acts : List α) :
    Along step p s acts ↔ Meets step ok s acts := by
  have hall : Meets step (fun _ _ => True) s acts := Meets.of_forall (fun _ _ => trivial) s acts
  rw [meets_iff_along_and_meets hp hgood (fun _ _ _ => trivial)
    (fun s a t hI ht _ => hbad s a t hI ht) hinit acts]
  exact (and_iff_left hall).symm

end Rules

end DbClinic.Transition
