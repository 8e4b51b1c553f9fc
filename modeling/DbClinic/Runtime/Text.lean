import DbClinic.Runtime.Session

/-!
The text functions of the standard library that the runtime uses, on lists of
characters. Positions are counted in characters; the source's positions are
byte offsets of the same characters.
-/

namespace DbClinic.Runtime

open List

/-- `str::split_once`: what is before and after the first occurrence. -/
def splitOnce (pattern : List Char) : List Char → Option (List Char × List Char)
  | [] => if pattern = [] then some ([], []) else none
  | c :: cs =>
    if pattern.isPrefixOf (c :: cs) then some ([], (c :: cs).drop pattern.length)
    else (splitOnce pattern cs).map fun parts => (c :: parts.1, parts.2)

variable {cs pattern before after rest part : List Char} {c : Char} {p : Char → Bool}

theorem splitOnce_eq (h : splitOnce pattern cs = some (before, after)) :
    cs = before ++ pattern ++ after := by
  induction cs generalizing before with
  | nil =>
    unfold splitOnce at h
    split at h
    · cases h
      simp_all
    · cases h
  | cons c cs ih =>
    unfold splitOnce at h
    split at h
    · rename_i hfirst
      cases h
      obtain ⟨rest, hrest⟩ := isPrefixOf_iff_prefix.mp hfirst
      simp [← hrest]
    · obtain ⟨parts, hparts, heq⟩ := Option.map_eq_some_iff.mp h
      cases heq
      rw [ih hparts]
      rfl

theorem splitOnce_of_infix (h : pattern <:+: cs) :
    ∃ parts, splitOnce pattern cs = some parts := by
  induction cs with
  | nil =>
    have hnil : pattern = [] := infix_nil.mp h
    exact ⟨([], []), by simp [splitOnce, hnil]⟩
  | cons c cs ih =>
    unfold splitOnce
    split
    · exact ⟨_, rfl⟩
    · rename_i hfirst
      rcases infix_cons_iff.mp h with hstart | hrest
      · exact absurd (List.isPrefixOf_iff_prefix.mpr hstart) hfirst
      · obtain ⟨parts, hparts⟩ := ih hrest
        exact ⟨(c :: parts.1, parts.2), by rw [hparts]; rfl⟩

theorem splitOnce_append (rest : List Char) (h : splitOnce pattern cs = some (before, after)) :
    splitOnce pattern (cs ++ rest) = some (before, after ++ rest) := by
  induction cs generalizing before with
  | nil =>
    unfold splitOnce at h
    split at h
    · rename_i hnil
      cases h
      subst hnil
      cases rest <;> simp [splitOnce]
    · cases h
  | cons c cs ih =>
    rw [cons_append]
    unfold splitOnce at h ⊢
    split at h
    · rename_i hfirst
      cases h
      obtain ⟨tail, htail⟩ := isPrefixOf_iff_prefix.mp hfirst
      have hlonger : pattern.isPrefixOf (c :: (cs ++ rest)) = true := by
        rw [List.isPrefixOf_iff_prefix, ← cons_append, ← htail, append_assoc]
        exact prefix_append _ _
      rw [if_pos hlonger, ← cons_append, ← htail, append_assoc]
      simp
    · rename_i hfirst
      obtain ⟨parts, hparts, heq⟩ := Option.map_eq_some_iff.mp h
      cases heq
      -- an earlier occurrence would lie within the text before the rest
      have hlen : pattern.length ≤ (c :: cs).length := by
        rw [splitOnce_eq hparts]
        simp
        omega
      have hlonger : ¬ pattern.isPrefixOf (c :: (cs ++ rest)) = true := by
        intro hstart
        rw [List.isPrefixOf_iff_prefix, ← cons_append] at hstart
        exact hfirst (List.isPrefixOf_iff_prefix.mpr
          (prefix_of_prefix_length_le hstart (prefix_append _ _) hlen))
      rw [if_neg hlonger, ih hparts]
      rfl

theorem splitOnce_eq_none_iff :
    splitOnce pattern cs = none ↔ ¬pattern <:+: cs := by
  constructor
  · rintro hnone hwithin
    obtain ⟨parts, hparts⟩ := splitOnce_of_infix hwithin
    rw [hnone] at hparts
    cases hparts
  · intro hnot
    cases hsplit : splitOnce pattern cs with
    | none => rfl
    | some parts => exact absurd ⟨parts.1, parts.2, (splitOnce_eq hsplit).symm⟩ hnot

theorem splitOnce_first {other : List Char} (h : splitOnce pattern cs = some (before, after))
    (hother : cs = other ++ pattern ++ rest) :
    before.length ≤ other.length := by
  induction cs generalizing before other with
  | nil =>
    unfold splitOnce at h
    split at h
    · cases h
      exact Nat.zero_le _
    · cases h
  | cons c cs ih =>
    unfold splitOnce at h
    split at h
    · cases h
      exact Nat.zero_le _
    · rename_i hfirst
      obtain ⟨parts, hparts, heq⟩ := Option.map_eq_some_iff.mp h
      cases heq
      cases other with
      | nil =>
        refine absurd (List.isPrefixOf_iff_prefix.mpr ?_) hfirst
        rw [hother, nil_append]
        exact prefix_append _ _
      | cons d other =>
        have htail : cs = other ++ pattern ++ rest := (List.cons.inj hother).2
        exact Nat.succ_le_succ (ih hparts htail)

theorem not_mem_of_splitOnce (h : splitOnce [c] cs = some (before, after)) : c ∉ before := by
  intro hmem
  obtain ⟨front, back, rfl⟩ := append_of_mem hmem
  have hcs := splitOnce_eq h
  have hlen := splitOnce_first h (show cs = front ++ [c] ++ (back ++ [c] ++ after) by simp [hcs])
  simp at hlen

theorem splitOnce_singleton {front : List Char} (hfront : c ∉ front) (rest : List Char) :
    splitOnce [c] (front ++ c :: rest) = some (front, rest) := by
  induction front with
  | nil => simp [splitOnce]
  | cons d front ih =>
    obtain ⟨hd, hmore⟩ := ne_and_not_mem_of_not_mem_cons hfront
    simp [splitOnce, hd, ih hmore]

/-- `str::contains`. -/
def containsText (pattern cs : List Char) : Bool := (splitOnce pattern cs).isSome

theorem mem_of_containsText (h : containsText pattern cs = true) (hc : c ∈ pattern) : c ∈ cs := by
  obtain ⟨⟨before, after⟩, hsplit⟩ := Option.isSome_iff_exists.mp h
  rw [splitOnce_eq hsplit]
  simp [hc]

theorem containsText_singleton (h : c ∈ cs) :
    containsText [c] cs = true := by
  unfold containsText
  induction cs with
  | nil => cases h
  | cons d cs ih =>
    unfold splitOnce
    split
    · rfl
    · rename_i hfirst
      rcases mem_cons.mp h with rfl | h
      · simp at hfirst
      · rw [Option.isSome_map]
        exact ih h

/-- The loop of `str::replace`: `skip` characters of a replaced occurrence
remain. -/
def replaceFrom (pattern replacement : List Char) : (skip : Nat) → List Char → List Char
  | _, [] => []
  | skip + 1, _ :: cs => replaceFrom pattern replacement skip cs
  | 0, c :: cs =>
    if pattern.isPrefixOf (c :: cs) then
      replacement ++ replaceFrom pattern replacement (pattern.length - 1) cs
    else c :: replaceFrom pattern replacement 0 cs

/-- `str::replace`, for a pattern that is not empty. -/
def replaceText (pattern replacement cs : List Char) : List Char :=
  replaceFrom pattern replacement 0 cs

/-- `str::strip_prefix`. -/
def stripPrefix (pattern cs : List Char) : Option (List Char) :=
  if pattern.isPrefixOf cs then some (cs.drop pattern.length) else none

/-- `str::strip_suffix`. -/
def stripSuffix (pattern cs : List Char) : Option (List Char) :=
  if pattern.isSuffixOf cs then some (cs.take (cs.length - pattern.length)) else none

theorem stripPrefix_eq_some_iff :
    stripPrefix pattern cs = some rest ↔ cs = pattern ++ rest := by
  unfold stripPrefix
  constructor
  · intro h
    split at h
    · rename_i hfront
      obtain ⟨more, rfl⟩ := isPrefixOf_iff_prefix.mp hfront
      simpa using h
    · cases h
  · rintro rfl
    rw [if_pos (List.isPrefixOf_iff_prefix.mpr (prefix_append _ _))]
    simp

theorem stripPrefix_eq_none_iff :
    stripPrefix pattern cs = none ↔ ¬pattern <+: cs := by
  unfold stripPrefix
  simp

theorem stripSuffix_eq_some (h : stripSuffix pattern cs = some rest) :
    cs = rest ++ pattern := by
  unfold stripSuffix at h
  split at h
  · rename_i hback
    obtain ⟨front, rfl⟩ := isSuffixOf_iff_suffix.mp hback
    cases h
    simp
  · cases h

theorem stripSuffix_append (pattern front : List Char) :
    stripSuffix pattern (front ++ pattern) = some front := by
  unfold stripSuffix
  rw [if_pos (isSuffixOf_iff_suffix.mpr (suffix_append front pattern))]
  simp

/-- `str::trim_end`. -/
def trimEnd (cs : List Char) : List Char := (cs.reverse.dropWhile isWhitespace).reverse

/-- `str::trim_matches`. -/
def trimMatches (drop : Char → Bool) (cs : List Char) : List Char :=
  ((cs.dropWhile drop).reverse.dropWhile drop).reverse

/-- `str::split_whitespace`. -/
def splitWhitespace (cs : List Char) : List (List Char) :=
  (cs.splitOnP isWhitespace).filter (· ≠ [])

theorem splitOnP_parts {parts : List (List Char)} (h : cs.splitOnP p = part :: parts) :
    part <+: cs ∧ ∀ q ∈ parts, ∃ b, p b = true ∧ b :: q <:+: cs := by
  induction cs generalizing part parts with
  | nil =>
    rw [splitOnP_nil] at h
    cases h
    exact ⟨prefix_rfl, fun q hq => absurd hq not_mem_nil⟩
  | cons c cs ih =>
    rw [splitOnP_cons_eq_if_modifyHead] at h
    cases hrest : cs.splitOnP p with
    | nil => exact absurd hrest (splitOnP_ne_nil p cs)
    | cons first more =>
      obtain ⟨hfirst, hmore⟩ := ih hrest
      have hlater : ∀ q ∈ more, ∃ b, p b = true ∧ b :: q <:+: c :: cs := by
        intro q hq
        obtain ⟨b, hb, hwithin⟩ := hmore q hq
        exact ⟨b, hb, hwithin.trans (suffix_cons c cs).isInfix⟩
      rw [hrest] at h
      split at h
      · rename_i hc
        cases h
        refine ⟨List.nil_prefix, fun q hq => ?_⟩
        rcases mem_cons.mp hq with rfl | hq
        · exact ⟨c, hc, (prefix_cons_inj c |>.mpr hfirst).isInfix⟩
        · exact hlater q hq
      · cases h
        exact ⟨prefix_cons_inj c |>.mpr hfirst, hlater⟩

theorem not_of_mem_splitOnP (h : part ∈ cs.splitOnP p) : ∀ c ∈ part, p c = false := by
  induction cs generalizing part with
  | nil =>
    rw [splitOnP_nil, mem_singleton] at h
    subst h
    exact fun c hc => absurd hc not_mem_nil
  | cons d cs ih =>
    rw [splitOnP_cons_eq_if_modifyHead] at h
    split at h
    · rcases mem_cons.mp h with rfl | h
      · exact fun c hc => absurd hc not_mem_nil
      · exact ih h
    · rename_i hd
      cases hrest : cs.splitOnP p with
      | nil => exact absurd hrest (splitOnP_ne_nil p cs)
      | cons first more =>
        rw [hrest] at h ih
        rcases mem_cons.mp h with rfl | h
        · intro c hc
          rcases mem_cons.mp hc with rfl | hc
          · simpa using hd
          · exact ih mem_cons_self c hc
        · exact ih (mem_cons_of_mem first h)

theorem infix_of_mem_splitOnP (h : part ∈ cs.splitOnP p) : part <:+: cs := by
  cases hparts : cs.splitOnP p with
  | nil => exact absurd hparts (splitOnP_ne_nil p cs)
  | cons first more =>
    obtain ⟨hfirst, hmore⟩ := splitOnP_parts hparts
    rw [hparts] at h
    rcases mem_cons.mp h with rfl | h
    · exact hfirst.isInfix
    · obtain ⟨b, -, hwithin⟩ := hmore part h
      exact (suffix_cons b part).isInfix.trans hwithin

variable {word l : List Char} {b : String}

theorem infix_of_mem_splitWhitespace (h : word ∈ splitWhitespace cs) :
    word <:+: cs :=
  infix_of_mem_splitOnP (mem_of_mem_filter h)

/-- `str::lines`: a carriage return right before a line break belongs to the
break. -/
def textLines (cs : List Char) : List (List Char) :=
  let dropReturn (line : List Char) := (stripSuffix ['\r'] line).getD line
  let parts := cs.splitOnP (· = '\n')
  match parts.getLast? with
  | none | some [] => parts.dropLast.map dropReturn
  | some last => parts.dropLast.map dropReturn ++ [last]

/-- `slice::join`. -/
def joinText (separator : String) (parts : List String) : String := separator.intercalate parts

theorem forall_mem_of_all {α : Type} {p : α → Prop} [DecidablePred p] {items : List α}
    (h : items.all (fun a => decide (p a)) = true) : ∀ a ∈ items, p a :=
  fun a ha => of_decide_eq_true (all_eq_true.mp h a ha)

theorem all_toList_ofList (h : l.all p = true) :
    (String.ofList l).toList.all p = true := by
  rw [String.toList_ofList]
  exact h

theorem all_toList_append {a : String} (ha : a.toList.all p = true) (hb : b.toList.all p = true) :
    (a ++ b).toList.all p = true := by
  rw [String.toList_append, all_append, ha, hb]
  rfl

theorem toList_ofList_append :
    (String.ofList (c :: l) ++ b).toList = c :: (l ++ b.toList) := by
  rw [String.toList_append, String.toList_ofList]
  rfl

theorem splitWhitespace_append {b : Char} (cs : List Char) (hb : isWhitespace b = true) :
    splitWhitespace (cs ++ b :: rest) = splitWhitespace cs ++ splitWhitespace rest := by
  unfold splitWhitespace
  rw [splitOnP_append_cons _ _ hb, filter_append]

theorem splitWhitespace_word (hne : word ≠ []) (h : ∀ c ∈ word, isWhitespace c = false) :
    splitWhitespace word = [word] := by
  unfold splitWhitespace
  rw [splitOnP_eq_singleton h]
  simp [hne]

theorem splitWhitespace_blanks {blanks : List Char} (h : ∀ c ∈ blanks, isWhitespace c = true)
    (cs : List Char) : splitWhitespace (blanks ++ cs) = splitWhitespace cs := by
  induction blanks with
  | nil => rfl
  | cons b blanks ih =>
    have hb := @splitWhitespace_append (blanks ++ cs) b [] (h b mem_cons_self)
    rw [nil_append] at hb
    rw [cons_append, hb, ih fun c hc => h c (mem_cons_of_mem b hc)]
    rfl

end DbClinic.Runtime
