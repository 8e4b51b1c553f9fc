import Mathlib.Tactic

/-!
Pre- and postconditions of computations over a state that survives an error. A
triple says what holds after a result and what holds after an error; it is built
along the code, one rule for each way to compose computations.
-/

namespace DbClinic.Effects

variable {ε δ σ α β ι : Type}

/-- What holds at the end of a computation. -/
def Ends (Q : α → σ → Prop) (E : σ → Prop) : EStateM.Result ε σ α → Prop
  | .ok a s => Q a s
  | .error _ s => E s

/-- From a state with `P` the computation ends with a result and `Q`, or with an
error and `E`. -/
def Triple (P : σ → Prop) (m : EStateM ε σ α) (Q : α → σ → Prop) (E : σ → Prop) : Prop :=
  ∀ s, P s → Ends Q E (m s)

/-- The computation keeps `F`, however it ends. -/
def Keeps (F : σ → Prop) (m : EStateM ε σ α) : Prop := Triple F m (fun _ => F) F

def attempt (caught : ε → Option δ) (m : EStateM ε σ α) : EStateM ε σ (Except δ α) := fun s =>
  match m s with
  | .ok a t => .ok (.ok a) t
  | .error e t =>
    match caught e with
    | some d => .ok (.error d) t
    | none => .error e t

def Attempted (Q : α → σ → Prop) (E : σ → Prop) : Except δ α → σ → Prop
  | .ok a, s => Q a s
  | .error _, s => E s

/-- The state that a computation ends in. -/
def final (m : EStateM ε σ α) (s : σ) : σ :=
  match m s with
  | .ok _ t => t
  | .error _ t => t

theorem final_bind_pure (m : EStateM ε σ α) (f : α → β) (s : σ) :
    final (m >>= fun a => Pure.pure (f a)) s = final m s := by
  change final (EStateM.bind m _) s = _
  unfold final EStateM.bind
  cases m s with
  | ok a t => rfl
  | error e t => rfl

section Rules

variable {P P' : σ → Prop} {Q Q' : α → σ → Prop} {R : β → σ → Prop} {E E' F : σ → Prop}
  {m : EStateM ε σ α}

theorem Triple.conseq (h : Triple P m Q E) (hpre : ∀ s, P' s → P s)
    (hpost : ∀ a s, Q a s → Q' a s) (herror : ∀ s, E s → E' s) : Triple P' m Q' E' := by
  intro s hs
  have hends := h s (hpre s hs)
  revert hends
  cases m s with
  | ok a t => exact hpost a t
  | error e t => exact herror t

theorem Triple.weaken (h : Triple P m Q E) (herror : ∀ s, E s → E' s) : Triple P m Q E' :=
  h.conseq (fun _ hs => hs) (fun _ _ hs => hs) herror

theorem Triple.pure {a : α} (h : ∀ s, P s → Q a s) :
    Triple P (Pure.pure a : EStateM ε σ α) Q E := fun s hs => h s hs

theorem Triple.throw {e : ε} (h : ∀ s, P s → E s) :
    Triple P (EStateM.throw e : EStateM ε σ α) Q E := fun s hs => h s hs

theorem Triple.modifyGet {f : σ → α × σ} (h : ∀ s, P s → Q (f s).1 (f s).2) :
    Triple P (EStateM.modifyGet f : EStateM ε σ α) Q E := fun s hs => h s hs

theorem Triple.bind {f : α → EStateM ε σ β} (hfirst : Triple P m Q E)
    (hrest : ∀ a, Triple (Q a) (f a) R E) : Triple P (m >>= f) R E := by
  intro s hs
  have hends := hfirst s hs
  change Ends R E (EStateM.bind m f s)
  unfold EStateM.bind
  revert hends
  cases m s with
  | ok a t => exact hrest a t
  | error e t => exact id

theorem Triple.attempt {caught : ε → Option δ} (h : Triple P m Q E) :
    Triple P (attempt caught m) (Attempted Q E) E := by
  intro s hs
  have hends := h s hs
  unfold Effects.attempt
  revert hends
  cases m s with
  | ok a t => exact id
  | error e t =>
    intro hends
    cases hcaught : caught e with
    | some d =>
      simp only [hcaught]
      exact hends
    | none =>
      simp only [hcaught]
      exact hends

theorem Triple.final {s : σ} (h : Triple P m Q E) (hs : P s) (hok : ∀ a t, Q a t → F t)
    (herror : ∀ t, E t → F t) : F (final m s) := by
  have hends := h s hs
  unfold Effects.final
  cases hrun : m s with
  | ok a t =>
    rw [hrun] at hends
    exact hok a t hends
  | error e t =>
    rw [hrun] at hends
    exact herror t hends

theorem Triple.run {s : σ} (h : Triple P m Q E) (hs : P s) :
    Triple (fun t => t = s) m (fun a t => m s = .ok a t ∧ Q a t)
      (fun t => (∃ e, m s = .error e t) ∧ E t) := by
  intro start heq
  rw [heq]
  have hends := h s hs
  cases hrun : m s with
  | ok a t =>
    rw [hrun] at hends
    exact ⟨rfl, hends⟩
  | error e t =>
    rw [hrun] at hends
    exact ⟨⟨e, rfl⟩, hends⟩

theorem Triple.mapM {l : List β} {f : β → EStateM ε σ α}
    (h : ∀ b, Triple P (f b) (fun _ => P) E) : Triple P (l.mapM f) (fun _ => P) E := by
  induction l with
  | nil =>
    rw [List.mapM_nil]
    exact Triple.pure fun _ hs => hs
  | cons b l ih =>
    rw [List.mapM_cons]
    exact Triple.bind (h b) fun _ => Triple.bind ih fun _ => Triple.pure fun _ hs => hs

theorem Triple.named {P : ι → σ → Prop} (h : ∀ i, Triple (P i) m Q E) :
    Triple (fun s => ∃ i, P i s) m Q E := fun s ⟨i, hi⟩ => h i s hi

theorem Triple.given {p : Prop} (h : p → Triple P m Q E) :
    Triple (fun s => p ∧ P s) m Q E := fun s ⟨hp, hs⟩ => h hp s hs

end Rules

end DbClinic.Effects
