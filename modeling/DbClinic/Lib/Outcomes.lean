import Mathlib.Tactic

/-!
Reading a result backwards: what the steps of a computation gave, from the
result of the whole. Each lemma takes one way to put computations together
apart.
-/

namespace DbClinic.Outcomes

variable {ε α β : Type}

theorem ok_bind (a : α) (f : α → Except ε β) : (Except.ok a >>= f) = f a := rfl

variable {f : α → Except ε β} {items : List α} {m : Except ε α} {b : β} {results : List β}

theorem bind_eq_ok (h : (m >>= f) = .ok b) :
    ∃ a, m = .ok a ∧ f a = .ok b := by
  cases m with
  | error e => cases h
  | ok a => exact ⟨a, rfl, h⟩

theorem bind_ok (hm : ∃ a, m = .ok a) (hf : ∀ a, ∃ b, f a = .ok b) : ∃ b, (m >>= f) = .ok b := by
  obtain ⟨a, rfl⟩ := hm
  exact hf a

theorem map_eq_ok {f : α → β} (h : m.map f = .ok b) :
    ∃ a, m = .ok a ∧ f a = b := by
  cases m with
  | error e => cases h
  | ok a =>
    cases h
    exact ⟨a, rfl, rfl⟩

theorem mapM_eq_ok (h : items.mapM f = .ok results) :
    List.Forall₂ (fun item result => f item = .ok result) items results := by
  induction items generalizing results with
  | nil =>
    cases h
    exact .nil
  | cons item items ih =>
    rw [List.mapM_cons] at h
    obtain ⟨result, hitem, hmore⟩ := bind_eq_ok h
    obtain ⟨more, hitems, hpure⟩ := bind_eq_ok hmore
    cases hpure
    exact .cons hitem (ih hitems)

theorem ok_of_mapM (h : items.mapM f = .ok results) {item : α} (hmem : item ∈ items) :
    ∃ b, f item = .ok b := by
  have hforall := mapM_eq_ok h
  clear h
  induction hforall with
  | nil => cases hmem
  | @cons first result _ _ hfirst _ ih =>
    rcases List.mem_cons.mp hmem with rfl | hlater
    · exact ⟨result, hfirst⟩
    · exact ih hlater

theorem mapM_ok (h : ∀ item ∈ items, ∃ b, f item = .ok b) :
    ∃ results, items.mapM f = .ok results := by
  induction items with
  | nil => exact ⟨[], rfl⟩
  | cons item items ih =>
    obtain ⟨b, hb⟩ := h item List.mem_cons_self
    obtain ⟨bs, hbs⟩ := ih fun a ha => h a (List.mem_cons_of_mem _ ha)
    exact ⟨b :: bs, by rw [List.mapM_cons, hb, hbs]; rfl⟩

end DbClinic.Outcomes
