import DbClinic.Runtime.Text

/-!
Where a pattern occurs in a text that is put together from parts. A pattern that does
not contain the separator lies within one part, and the search for it goes part by part.
-/

namespace DbClinic.Runtime

open List

variable {pattern cs ds : List Char}

theorem not_infix_within (h : ¬pattern <:+: cs) (hwithin : ds <:+: cs) : ¬pattern <:+: ds :=
  fun hpattern => h (hpattern.trans hwithin)

theorem not_infix_behind {words : List Char} (hne : pattern ≠ [])
    (hfirst : ∀ c, pattern.head? = some c → c ∉ words) (h : ¬pattern <:+: cs) :
    ¬pattern <:+: words ++ cs := by
  induction words with
  | nil => exact h
  | cons c words ih =>
    have hrest := ih fun d hd hmem => hfirst d hd (mem_cons_of_mem c hmem)
    rw [cons_append, infix_cons_iff]
    rintro (⟨after, hstart⟩ | hlater)
    · have hhead : pattern.head? = some c := by
        cases pattern with
        | nil => exact absurd rfl hne
        | cons d pattern => rw [(List.cons.inj hstart).1, head?_cons]
      exact hfirst c hhead mem_cons_self
    · exact hrest hlater

theorem splitOnce_start {pattern : List Char} (hne : pattern ≠ []) (rest : List Char) :
    splitOnce pattern (pattern ++ rest) = some ([], rest) := by
  cases pattern with
  | nil => exact absurd rfl hne
  | cons c pattern =>
    have hstart : (c :: pattern).isPrefixOf (c :: (pattern ++ rest)) = true :=
      isPrefixOf_iff_prefix.mpr (prefix_append (c :: pattern) rest)
    rw [cons_append, splitOnce, if_pos hstart]
    simp

variable {s : Char} {parts : List (List Char)}

theorem splitOnce_separated (hs : s ∉ pattern) (hne : pattern ≠ []) (h : ¬pattern <:+: cs)
    (ds : List Char) :
    splitOnce pattern (cs ++ s :: ds) =
      (splitOnce pattern ds).map fun parts => (cs ++ s :: parts.1, parts.2) := by
  induction cs with
  | nil =>
    have hstart : ¬pattern.isPrefixOf (s :: ds) = true := by
      intro hpre
      cases pattern with
      | nil => exact hne rfl
      | cons c pattern =>
        obtain ⟨after, heq⟩ := isPrefixOf_iff_prefix.mp hpre
        exact hs ((List.cons.inj heq).1 ▸ mem_cons_self)
    rw [nil_append, splitOnce, if_neg hstart]
    rfl
  | cons c cs ih =>
    have hrest := ih fun hwithin => h (hwithin.trans (suffix_cons c cs).isInfix)
    have hstart : ¬pattern.isPrefixOf (c :: (cs ++ s :: ds)) = true := by
      intro hpre
      obtain ⟨after, heq⟩ := isPrefixOf_iff_prefix.mp hpre
      rw [← cons_append, append_eq_append_iff] at heq
      rcases heq with ⟨x, hx, -⟩ | ⟨x, hx, hafter⟩
      · exact h (hx ▸ (prefix_append pattern x).isInfix)
      · cases x with
        | nil => exact h ⟨[], [], by simp [hx]⟩
        | cons d x =>
          rw [(List.cons.inj hafter).1] at hs
          exact hs (hx ▸ by simp)
    rw [cons_append, splitOnce, if_neg hstart, hrest, Option.map_map]
    rfl

theorem not_infix_separated (hs : s ∉ pattern) (hne : pattern ≠ []) (hcs : ¬pattern <:+: cs)
    (hds : ¬pattern <:+: ds) : ¬pattern <:+: cs ++ s :: ds := by
  rw [← splitOnce_eq_none_iff] at hds ⊢
  rw [splitOnce_separated hs hne hcs, hds]
  rfl

theorem not_infix_concat {c : Char} (hc : pattern.getLast? ≠ some c) (hne : pattern ≠ [])
    (h : ¬pattern <:+: cs) : ¬pattern <:+: cs ++ [c] := by
  rw [infix_concat_iff]
  rintro (⟨before, hbefore⟩ | hwithin)
  · apply hc
    have hlast := congrArg List.getLast? hbefore
    rw [getLast?_append_of_ne_nil before hne] at hlast
    simpa using hlast
  · exact h hwithin

theorem not_infix_intercalate (hs : s ∉ pattern) (hne : pattern ≠ [])
    (h : ∀ part ∈ parts, ¬pattern <:+: part) :
    ¬pattern <:+: [s].intercalate parts := by
  induction parts with
  | nil => simpa using hne
  | cons part rest ih =>
    have hpart := h part mem_cons_self
    have hrest := ih fun other hmem => h other (mem_cons_of_mem part hmem)
    cases rest with
    | nil => simpa using hpart
    | cons next rest =>
      rw [intercalate_cons_cons]
      simpa using not_infix_separated hs hne hpart hrest

theorem infix_of_mem_intercalate {part : List Char} (h : part ∈ parts) :
    part <:+: [s].intercalate parts := by
  induction parts with
  | nil => cases h
  | cons first rest ih =>
    cases rest with
    | nil => simp [mem_singleton.mp h]
    | cons next rest =>
      rw [intercalate_cons_cons]
      rcases mem_cons.mp h with rfl | h
      · exact ⟨[], [s] ++ [s].intercalate (next :: rest), by simp⟩
      · exact (ih h).trans ⟨first ++ [s], [], by simp⟩

theorem infix_intercalate_iff (hs : s ∉ pattern) (hne : pattern ≠ []) :
    pattern <:+: [s].intercalate parts ↔ ∃ part ∈ parts, pattern <:+: part := by
  constructor
  · intro h
    by_contra hnone
    push Not at hnone
    exact not_infix_intercalate hs hne hnone h
  · rintro ⟨part, hpart, hwithin⟩
    exact hwithin.trans (infix_of_mem_intercalate hpart)

end DbClinic.Runtime
