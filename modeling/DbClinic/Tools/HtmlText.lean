import DbClinic.Runtime.Text

/-!
The text of a page. Tags are left out, white space is collapsed, and entities are
decoded one kind after the other, ampersands first: what the first replacement
writes is read again by the ones that follow.
-/

namespace DbClinic.Tools

open DbClinic.Runtime List

/-- The replacements of `decode_html_entities`, in the order they are made. -/
def HTML_ENTITIES : List (List Char × Char) :=
  [("&amp;".toList, '&'), ("&lt;".toList, '<'), ("&gt;".toList, '>'), ("&quot;".toList, '"'),
    ("&#39;".toList, '\''), ("&nbsp;".toList, ' ')]

/-- A chain of `replace`. -/
def replaceAll (table : List (List Char × Char)) (input : List Char) : List Char :=
  table.foldl (fun text entry => replaceText entry.1 [entry.2] text) input

def decodeHtmlEntities (input : List Char) : List Char := replaceAll HTML_ENTITIES input

def collapseWhitespace (input : List Char) : List Char :=
  [' '].intercalate (splitWhitespace input)

/-- The loop of `html_to_text`. -/
def tagless (inTag previousWasSpace : Bool) : List Char → List Char
  | [] => []
  | c :: html =>
    if c = '<' then tagless true previousWasSpace html
    else if c = '>' then tagless false previousWasSpace html
    else if inTag then tagless inTag previousWasSpace html
    else if c = '&' then '&' :: tagless inTag false html
    else if isWhitespace c then
      if previousWasSpace then tagless inTag previousWasSpace html
      else ' ' :: tagless inTag true html
    else c :: tagless inTag false html

def htmlToText (html : List Char) : List Char :=
  collapseWhitespace (decodeHtmlEntities (tagless false false html))

section Replace

variable {pattern replacement cs rest : List Char} {c : Char}

theorem replaceFrom_append (dropped rest : List Char) :
    replaceFrom pattern replacement dropped.length (dropped ++ rest) =
      replaceText pattern replacement rest := by
  induction dropped with
  | nil => rfl
  | cons c dropped ih => exact ih

theorem replaceText_hit (hne : pattern ≠ []) (rest : List Char) :
    replaceText pattern replacement (pattern ++ rest) =
      replacement ++ replaceText pattern replacement rest := by
  cases pattern with
  | nil => exact absurd rfl hne
  | cons c pattern =>
    have hstart : (c :: pattern).isPrefixOf (c :: (pattern ++ rest)) = true :=
      isPrefixOf_iff_prefix.mpr ⟨rest, rfl⟩
    rw [cons_append, replaceText, replaceFrom, if_pos hstart, length_cons,
      Nat.add_sub_cancel, replaceFrom_append]

theorem replaceText_miss (h : ¬pattern <+: c :: cs) :
    replaceText pattern replacement (c :: cs) = c :: replaceText pattern replacement cs := by
  rw [replaceText, replaceFrom, if_neg (mt isPrefixOf_iff_prefix.mp h), replaceText]

theorem replaceText_induction {motive : List Char → Prop} (hne : pattern ≠ [])
    (nil : motive []) (hit : ∀ rest, motive rest → motive (pattern ++ rest))
    (miss : ∀ c cs, ¬pattern <+: c :: cs → motive cs → motive (c :: cs)) (cs : List Char) :
    motive cs := by
  induction hlen : cs.length using Nat.strong_induction_on generalizing cs with
  | _ n ih =>
    cases cs with
    | nil => exact nil
    | cons c cs =>
      by_cases hstart : pattern <+: c :: cs
      · obtain ⟨rest, hrest⟩ := hstart
        rw [← hrest] at hlen ⊢
        have hpos := length_pos_iff.mpr hne
        rw [length_append] at hlen
        exact hit rest (ih rest.length (by omega) rest rfl)
      · rw [length_cons] at hlen
        exact miss c cs hstart (ih cs.length (by omega) cs rfl)

theorem replaceText_of_not_infix (hne : pattern ≠ []) (h : ¬pattern <:+: cs) :
    replaceText pattern replacement cs = cs := by
  induction cs using replaceText_induction hne with
  | nil => rfl
  | hit rest ih => exact absurd ⟨[], rest, rfl⟩ h
  | miss c cs hstart ih =>
    rw [replaceText_miss hstart, ih fun hin => h (hin.trans (suffix_cons c cs).isInfix)]

end Replace

def ink (cs : List Char) : Nat := cs.countP fun c => !isWhitespace c

section Ink

variable {pattern replacement cs ds : List Char} {c : Char}

@[simp] theorem ink_append (cs ds : List Char) : ink (cs ++ ds) = ink cs + ink ds :=
  countP_append

theorem ink_cons (c : Char) (cs : List Char) : ink (c :: cs) = ink [c] + ink cs :=
  ink_append [c] cs

theorem ink_replaceText_le (hne : pattern ≠ []) (hink : ink replacement ≤ ink pattern)
    (cs : List Char) : ink (replaceText pattern replacement cs) ≤ ink cs := by
  induction cs using replaceText_induction hne with
  | nil => exact Nat.le_refl _
  | hit rest ih =>
    rw [replaceText_hit hne, ink_append, ink_append]
    omega
  | miss c cs hstart ih =>
    rw [replaceText_miss hstart, ink_cons, ink_cons c cs]
    omega

theorem ink_replaceText_lt (hink : ink replacement < ink pattern) (h : pattern <:+: cs) :
    ink (replaceText pattern replacement cs) < ink cs := by
  have hne : pattern ≠ [] := by
    rintro rfl
    exact Nat.not_lt_zero _ hink
  induction cs using replaceText_induction hne with
  | nil => exact absurd (eq_nil_of_infix_nil h) hne
  | hit rest ih =>
    have hrest := ink_replaceText_le hne (Nat.le_of_lt hink) rest
    rw [replaceText_hit hne, ink_append, ink_append]
    omega
  | miss c cs hstart ih =>
    have hrest := ih ((infix_cons_iff.mp h).resolve_left hstart)
    rw [replaceText_miss hstart, ink_cons, ink_cons c cs]
    omega

theorem ink_replaceAll_eq_iff {table : List (List Char × Char)}
    (hink : ∀ entry ∈ table, ink [entry.2] < ink entry.1) (cs : List Char) :
    ink (replaceAll table cs) ≤ ink cs ∧
      (ink (replaceAll table cs) = ink cs → ∀ entry ∈ table, ¬entry.1 <:+: cs) := by
  induction table generalizing cs with
  | nil => exact ⟨Nat.le_refl _, fun _ _ hentry => absurd hentry not_mem_nil⟩
  | cons entry table ih =>
    obtain ⟨hfirst, hrest⟩ := forall_mem_cons.mp hink
    have hne : entry.1 ≠ [] := by
      intro hnil
      rw [hnil] at hfirst
      exact Nat.not_lt_zero _ hfirst
    obtain ⟨hle, hnone⟩ := ih hrest (replaceText entry.1 [entry.2] cs)
    have hone := ink_replaceText_le hne (Nat.le_of_lt hfirst) cs
    change ink (replaceAll table (replaceText entry.1 [entry.2] cs)) ≤ _ ∧
      (ink (replaceAll table (replaceText entry.1 [entry.2] cs)) = _ → _)
    refine ⟨Nat.le_trans hle hone, fun heq => ?_⟩
    by_cases hin : entry.1 <:+: cs
    · have hlt := ink_replaceText_lt hfirst hin
      omega
    · rw [ replaceText_of_not_infix hne hin] at hnone heq
      exact forall_mem_cons.mpr ⟨hin, hnone heq⟩

theorem replaceAll_of_not_infix {table : List (List Char × Char)}
    (hne : ∀ entry ∈ table, entry.1 ≠ []) (h : ∀ entry ∈ table, ¬entry.1 <:+: cs) :
    replaceAll table cs = cs := by
  induction table with
  | nil => rfl
  | cons entry table ih =>
    obtain ⟨hfirst, hrest⟩ := forall_mem_cons.mp hne
    obtain ⟨hin, hnone⟩ := forall_mem_cons.mp h
    change replaceAll table (replaceText entry.1 [entry.2] cs) = cs
    rw [ replaceText_of_not_infix hfirst hin, ih hrest hnone]

theorem ink_splitOnP (cs : List Char) : ink (cs.splitOnP isWhitespace).flatten = ink cs := by
  induction cs with
  | nil => rfl
  | cons c cs ih =>
    rw [splitOnP_cons_eq_if_modifyHead]
    cases hparts : cs.splitOnP isWhitespace with
    | nil => exact absurd hparts (splitOnP_ne_nil _ _)
    | cons part parts =>
      rw [hparts] at ih
      split <;> rename_i hc
      · have hblank : ink [c] = 0 := by simp [ink, hc]
        rw [flatten_cons, nil_append, ih, ink_cons c cs, hblank, Nat.zero_add]
      · rw [modifyHead_cons, flatten_cons, cons_append, ink_cons,
          ← flatten_cons, ih, ← ink_cons]

theorem ink_collapseWhitespace (cs : List Char) : ink (collapseWhitespace cs) = ink cs := by
  have hjoin (parts : List (List Char)) : ink ([' '].intercalate parts) = ink parts.flatten := by
    have hspace : ink [' '] = 0 := by decide
    induction parts with
    | nil => rfl
    | cons part parts ih =>
      cases parts with
      | nil => simp
      | cons next parts =>
        rw [intercalate_cons_cons, ink_append, ink_append, hspace, ih, Nat.add_zero]
        exact (ink_append part (next :: parts).flatten).symm
  rw [collapseWhitespace, hjoin, splitWhitespace, flatten_filter_ne_nil, ink_splitOnP]

end Ink

def squeeze (previousWasSpace : Bool) : List Char → List Char
  | [] => []
  | c :: cs =>
    if isWhitespace c then
      if previousWasSpace then squeeze true cs else ' ' :: squeeze true cs
    else c :: squeeze false cs

theorem filter_splitOnP_squeeze (cs : List Char) :
    (((squeeze true cs).splitOnP isWhitespace).filter (· ≠ []) =
      (cs.splitOnP isWhitespace).filter (· ≠ [])) ∧
    ∃ part parts parts', (squeeze false cs).splitOnP isWhitespace = part :: parts ∧
      cs.splitOnP isWhitespace = part :: parts' ∧
      parts.filter (· ≠ []) = parts'.filter (· ≠ []) := by
  induction cs with
  | nil => exact ⟨rfl, [], [], [], rfl, rfl, rfl⟩
  | cons c cs ih =>
    obtain ⟨htrue, part, parts, parts', hsqueezed, hcs, hparts⟩ := ih
    have hspace : isWhitespace ' ' = true := by decide
    by_cases hc : isWhitespace c = true
    · have hkept : (c :: cs).splitOnP isWhitespace = [] :: cs.splitOnP isWhitespace := by
        rw [splitOnP_cons_eq_if_modifyHead, if_pos hc]
      refine ⟨?_, [], (squeeze true cs).splitOnP isWhitespace, cs.splitOnP isWhitespace, ?_,
        hkept, htrue⟩
      · rw [squeeze, if_pos hc, if_pos rfl, htrue, hkept]
        rfl
      · rw [squeeze, if_pos hc, if_neg Bool.false_ne_true,
          splitOnP_cons_eq_if_modifyHead, if_pos hspace]
    · have hsplit (previous : Bool) : (squeeze previous (c :: cs)).splitOnP isWhitespace =
          (c :: part) :: parts := by
        rw [squeeze, if_neg hc, splitOnP_cons_eq_if_modifyHead, if_neg hc, hsqueezed,
          modifyHead_cons]
      have hkept : (c :: cs).splitOnP isWhitespace = (c :: part) :: parts' := by
        rw [splitOnP_cons_eq_if_modifyHead, if_neg hc, hcs, modifyHead_cons]
      refine ⟨?_, c :: part, parts, parts', hsplit false, hkept, hparts⟩
      rw [hsplit true, hkept, filter_cons_of_pos (by simp),
        filter_cons_of_pos (by simp), hparts]

theorem collapseWhitespace_squeeze (cs : List Char) :
    collapseWhitespace (squeeze false cs) = collapseWhitespace cs := by
  obtain ⟨-, part, parts, parts', hsqueezed, hcs, hparts⟩ := filter_splitOnP_squeeze cs
  unfold collapseWhitespace splitWhitespace
  rw [hsqueezed, hcs, filter_cons, filter_cons, hparts]

section Squeeze

variable {word cs : List Char}

theorem squeeze_append (hword : ∀ c ∈ word, isWhitespace c = false) (hne : word ≠ [])
    (previous : Bool) (cs : List Char) :
    squeeze previous (word ++ cs) = word ++ squeeze false cs := by
  induction word generalizing previous with
  | nil => exact absurd rfl hne
  | cons c word ih =>
    obtain ⟨hc, hrest⟩ := forall_mem_cons.mp hword
    rw [cons_append, squeeze, if_neg (by simp [hc])]
    cases word with
    | nil => rfl
    | cons next word =>
      rw [ih hrest (cons_ne_nil _ _)]
      rfl

theorem infix_squeeze (hword : ∀ c ∈ word, isWhitespace c = false) (hne : word ≠ [])
    (previous : Bool) (h : word <:+: cs) : word <:+: squeeze previous cs := by
  obtain ⟨front, back, rfl⟩ := h
  rw [append_assoc]
  induction front generalizing previous with
  | nil =>
    rw [nil_append, squeeze_append hword hne]
    exact (prefix_append _ _).isInfix
  | cons c front ih =>
    rw [cons_append, squeeze]
    split
    · split
      · exact ih true
      · exact (ih true).trans (suffix_cons _ _).isInfix
    · exact (ih false).trans (suffix_cons _ _).isInfix

theorem prefix_of_squeeze (hword : ∀ c ∈ word, isWhitespace c = false)
    (h : word <+: squeeze false cs) : word <+: cs := by
  induction word generalizing cs with
  | nil => exact nil_prefix
  | cons d word ih =>
    obtain ⟨hd, hrest⟩ := forall_mem_cons.mp hword
    cases cs with
    | nil => exact h
    | cons c cs =>
      rw [squeeze] at h
      split at h
      · rw [if_neg Bool.false_ne_true, cons_prefix_cons] at h
        rw [h.1] at hd
        exact absurd hd (by decide)
      · rw [cons_prefix_cons] at h ⊢
        exact ⟨h.1, ih hrest h.2⟩

theorem infix_of_squeeze (hword : ∀ c ∈ word, isWhitespace c = false) (hne : word ≠ [])
    {previous : Bool} (h : word <:+: squeeze previous cs) : word <:+: cs := by
  induction cs generalizing previous with
  | nil => exact h
  | cons c cs ih =>
    have hlater {previous : Bool} (h : word <:+: squeeze previous cs) : word <:+: c :: cs :=
      (ih h).trans (suffix_cons c cs).isInfix
    rw [squeeze] at h
    split at h
    · split at h
      · exact hlater h
      · rcases infix_cons_iff.mp h with hfront | hin
        · -- a word does not begin with white space
          cases word with
          | nil => exact absurd rfl hne
          | cons d word =>
            have hd := hword d mem_cons_self
            rw [(cons_prefix_cons.mp hfront).1] at hd
            exact absurd hd (by decide)
        · exact hlater hin
    · rename_i hc
      rcases infix_cons_iff.mp h with hfront | hin
      · have hsqueezed : word <+: squeeze false (c :: cs) := by
          rw [squeeze, if_neg hc]
          exact hfront
        exact (prefix_of_squeeze hword hsqueezed).isInfix
      · exact hlater hin

end Squeeze

def entityOf (c : Char) : List Char :=
  if c = '&' then "&amp;".toList
  else if c = '<' then "&lt;".toList
  else if c = '>' then "&gt;".toList
  else [c]

def escapeMarks (marks cs : List Char) : List Char :=
  cs.flatMap fun c => if c ∈ marks then entityOf c else [c]

def escapeHtml (cs : List Char) : List Char := escapeMarks ['&', '<', '>'] cs

theorem escapeMarks_cons (marks : List Char) (c : Char) (cs : List Char) :
    escapeMarks marks (c :: cs) = (if c ∈ marks then entityOf c else [c]) ++ escapeMarks marks cs :=
  flatMap_cons

theorem escapeMarks_nil (cs : List Char) : escapeMarks [] cs = cs := by
  simp [escapeMarks]

theorem tagless_escapeHtml (previous : Bool) (cs : List Char) :
    tagless false previous (escapeHtml cs) = escapeHtml (squeeze previous cs) := by
  unfold escapeHtml
  induction cs generalizing previous with
  | nil => rfl
  | cons c cs ih =>
    rw [escapeMarks_cons, squeeze]
    by_cases hmark : c ∈ ['&', '<', '>']
    · have hentity : isWhitespace c = false ∧
          tagless false previous (entityOf c ++ escapeMarks ['&', '<', '>'] cs) =
            entityOf c ++ tagless false false (escapeMarks ['&', '<', '>'] cs) := by
        simp only [mem_cons, not_mem_nil, or_false] at hmark
        rcases hmark with rfl | rfl | rfl <;> exact ⟨by decide, rfl⟩
      rw [if_pos hmark, hentity.2, ih, hentity.1, if_neg Bool.false_ne_true, escapeMarks_cons,
        if_pos hmark]
    · simp only [mem_cons, not_mem_nil, or_false, not_or] at hmark
      have hspace : ' ' ∉ ['&', '<', '>'] := by decide
      obtain ⟨hamp, hlt, hgt⟩ := hmark
      have hmark : c ∉ ['&', '<', '>'] := by simp [hamp, hlt, hgt]
      rw [if_neg hmark, singleton_append, tagless, if_neg hlt, if_neg hgt,
        if_neg Bool.false_ne_true, if_neg hamp]
      split
      · split
        · rename_i hprevious
          rw [ih, hprevious]
        · rw [ih, escapeMarks_cons, if_neg hspace, singleton_append]
      · rw [ih, escapeMarks_cons, if_neg hmark, singleton_append]

theorem replaceText_amp (cs : List Char) :
    replaceText "&amp;".toList ['&'] (escapeHtml cs) = escapeMarks ['<', '>'] cs := by
  unfold escapeHtml
  induction cs with
  | nil => rfl
  | cons c cs ih =>
    rw [escapeMarks_cons, escapeMarks_cons, ← ih]
    by_cases hmark : c ∈ ['&', '<', '>']
    · rw [if_pos hmark]
      simp only [mem_cons, not_mem_nil, or_false] at hmark
      rcases hmark with rfl | rfl | rfl <;> rfl
    · have hother : c ∉ ['<', '>'] := fun h => hmark (mem_cons_of_mem _ h)
      rw [if_neg hmark, if_neg hother, singleton_append, singleton_append]
      refine replaceText_miss fun h => hmark ?_
      rw [← (cons_prefix_cons.mp h).1]
      decide

theorem prefix_of_escapeMarks {marks word cs : List Char}
    (hmarks : ∀ c ∈ marks, c = '<' ∨ c = '>') (hword : '&' ∉ word)
    (h : word <+: escapeMarks marks cs) : word <+: cs := by
  induction word generalizing cs with
  | nil => exact nil_prefix
  | cons d word ih =>
    rw [mem_cons, not_or] at hword
    cases cs with
    | nil => exact h
    | cons c cs =>
      rw [escapeMarks_cons] at h
      split at h
      · rename_i hc
        exfalso
        rcases hmarks c hc with rfl | rfl <;>
          exact hword.1 (cons_prefix_cons.mp h).1.symm
      · rw [singleton_append, cons_prefix_cons] at h
        exact cons_prefix_cons.mpr ⟨h.1, ih hword.2 h.2⟩

theorem replaceText_mark {mark : Char} {marks : List Char}
    (hmarks : ∀ c ∈ mark :: marks, c = '<' ∨ c = '>') (hfresh : mark ∉ marks) (cs : List Char) :
    replaceText (entityOf mark) [mark] (escapeMarks (mark :: marks) cs) =
      escapeMarks marks (replaceText (entityOf mark) [mark] cs) := by
  obtain ⟨hmark, hrest⟩ := forall_mem_cons.mp hmarks
  have hentity : ∃ word, entityOf mark = '&' :: word ∧ '&' ∉ word ∧
      ∀ marks : List Char, (∀ c ∈ marks, c = '<' ∨ c = '>') → ∀ cs,
        escapeMarks marks (entityOf mark ++ cs) = entityOf mark ++ escapeMarks marks cs := by
    have hkept : ∀ word marks : List Char, '<' ∉ word → '>' ∉ word →
        (∀ c ∈ marks, c = '<' ∨ c = '>') →
        ∀ cs, escapeMarks marks (word ++ cs) = word ++ escapeMarks marks cs := by
      intro word marks hlt hgt hmarks cs
      induction word with
      | nil => rfl
      | cons c word ih =>
        rw [mem_cons, not_or] at hlt hgt
        have hc : c ∉ marks := fun h => (hmarks c h).elim (Ne.symm hlt.1) (Ne.symm hgt.1)
        rw [cons_append, escapeMarks_cons, if_neg hc, ih hlt.2 hgt.2]
        rfl
    rcases hmark with rfl | rfl
    · exact ⟨_, rfl, by decide, fun marks => hkept _ marks (by decide) (by decide)⟩
    · exact ⟨_, rfl, by decide, fun marks => hkept _ marks (by decide) (by decide)⟩
  obtain ⟨word, hword, hamp, hkept⟩ := hentity
  have hne : entityOf mark ≠ [] := by
    rw [hword]
    exact cons_ne_nil _ _
  induction cs using replaceText_induction hne with
  | nil => rfl
  | hit cs ih =>
    rw [hkept _ hmarks, replaceText_hit hne, replaceText_hit hne, ih, singleton_append,
      singleton_append, escapeMarks_cons, if_neg hfresh, singleton_append]
  | miss c cs hstart ih =>
    rw [replaceText_miss hstart, escapeMarks_cons, escapeMarks_cons, ← ih]
    by_cases hc : c = mark
    · subst hc
      rw [if_pos mem_cons_self, if_neg hfresh, replaceText_hit hne]
    · by_cases hother : c ∈ marks
      · rw [if_pos (mem_cons_of_mem _ hother), if_pos hother]
        rcases hmark with rfl | rfl <;> rcases hrest c hother with rfl | rfl <;>
          first | exact absurd rfl hc | rfl
      · rw [if_neg (by simp [hc, hother]), if_neg hother, singleton_append,
          singleton_append]
        refine replaceText_miss fun h => hstart ?_
        rw [hword, cons_prefix_cons] at h ⊢
        exact ⟨h.1, prefix_of_escapeMarks hmarks hamp h.2⟩

theorem decodeHtmlEntities_escapeHtml (cs : List Char) :
    decodeHtmlEntities (escapeHtml cs) = replaceAll HTML_ENTITIES.tail cs := by
  have hlt := @replaceText_mark '<' ['>'] (by simp) (by decide) cs
  have hgt := @replaceText_mark '>' [] (by simp) (by decide)
    (replaceText (entityOf '<') ['<'] cs)
  have hfirst : decodeHtmlEntities (escapeHtml cs) =
      replaceAll (HTML_ENTITIES.drop 3) (replaceText (entityOf '>') ['>']
        (replaceText (entityOf '<') ['<']
          (replaceText "&amp;".toList ['&'] (escapeHtml cs)))) := rfl
  rw [hfirst, replaceText_amp, hlt, hgt, escapeMarks_nil]
  rfl

/-- Extraction undoes escaping exactly on the texts that have none of the other
entities. -/
theorem htmlToText_escapeHtml_iff (s : String) :
    htmlToText (escapeHtml s.toList) = collapseWhitespace s.toList ↔
      ∀ entity ∈ ["&lt;", "&gt;", "&quot;", "&#39;", "&nbsp;"], ¬entity.toList <:+: s.toList := by
  have htable : ∀ entry ∈ HTML_ENTITIES.tail, ink [entry.2] < ink entry.1 ∧
      entry.1 ≠ [] ∧ ∀ c ∈ entry.1, isWhitespace c = false := by
    have hall : ∀ entry ∈ HTML_ENTITIES.tail, ink [entry.2] < ink entry.1 ∧
        entry.1 ≠ [] ∧ (entry.1.all fun c => !isWhitespace c) = true := by decide
    simpa using hall
  have hlisted : (∀ entity ∈ ["&lt;", "&gt;", "&quot;", "&#39;", "&nbsp;"],
      ¬entity.toList <:+: s.toList) ↔ ∀ entry ∈ HTML_ENTITIES.tail, ¬entry.1 <:+: s.toList := by
    simp [HTML_ENTITIES]
  rw [hlisted, htmlToText, tagless_escapeHtml, decodeHtmlEntities_escapeHtml]
  constructor
  · intro h entry hentry hin
    obtain ⟨-, hnone⟩ := ink_replaceAll_eq_iff (fun entry h => (htable entry h).1)
      (squeeze false s.toList)
    have hink := congrArg ink h
    rw [ink_collapseWhitespace, ← collapseWhitespace_squeeze, ink_collapseWhitespace] at hink
    exact hnone hink entry hentry
      (infix_squeeze (htable entry hentry).2.2 (htable entry hentry).2.1 false hin)
  · intro h
    rw [ replaceAll_of_not_infix (fun entry h => (htable entry h).2.1), collapseWhitespace_squeeze]
    intro entry hentry hin
    exact h entry hentry (infix_of_squeeze (htable entry hentry).2.2 (htable entry hentry).2.1 hin)

/-- The text of an entity, escaped, is decoded to what the entity stands for. -/
theorem htmlToText_escaped_entity :
    htmlToText (escapeHtml "&lt;".toList) ≠ collapseWhitespace "&lt;".toList := by decide

end DbClinic.Tools
