import DbClinic.Lib.Cuts
import DbClinic.Runtime.Trim
import DbClinic.Runtime.TrustResolver

/-!
Allowlist patterns and the language they stand for. An absolute pattern should allow a path
when the path or a directory above it is in the language. For each test of the resolver
there is what it says about the text of the pattern.
-/

namespace DbClinic.Runtime.TrustConfig

open List
open WorkerBoot (trimEndMatches)

abbrev InLanguage (pattern text : List Char) : Prop := Glob.Matches '?' '*' pattern text

def absoluteText (names : List String) : List Char :=
  if names = [] then ['/'] else names.flatMap fun name => '/' :: name.toList

/-- A separator at the end of a pattern is ignored. -/
def bare (pattern : List Char) : List Char :=
  if pattern ≠ ['/'] ∧ ['/'] <:+ pattern then pattern.dropLast else pattern

def Allows (pattern : String) (names : List String) : Prop :=
  ∃ directory, directory <+: names ∧ InLanguage (bare pattern.toList) (absoluteText directory)

/-- The same, for the text of a path. -/
def Covers (pattern path : List Char) : Prop :=
  ∃ directory, InLanguage (bare pattern) directory ∧
    (directory = path ∨ directory ++ ['/'] <+: path ∨ directory = ['/'])

theorem mem_flatMap_names {names : List String} (h : ∀ name ∈ names, '/' ∉ name.toList)
    {directory : List Char}
    (hpre : directory ++ ['/'] <+: names.flatMap fun name => '/' :: name.toList) :
    ∃ front, front <+: names ∧ directory = front.flatMap fun name => '/' :: name.toList := by
  induction names generalizing directory with
  | nil => simp at hpre
  | cons name rest ih =>
    cases directory with
    | nil => exact ⟨[], nil_prefix, rfl⟩
    | cons c directory =>
      rw [flatMap_cons, cons_append, cons_append, cons_prefix_cons] at hpre
      obtain ⟨rfl, hpre⟩ := hpre
      -- the separator after the directory comes after the whole first name
      have hname : name.toList <+: directory := by
        apply prefix_of_prefix_length_le (prefix_append _ _)
          ((prefix_append directory ['/']).trans hpre)
        by_contra hshort
        push Not at hshort
        have hwithin : directory ++ ['/'] <+: name.toList :=
          prefix_of_prefix_length_le hpre (prefix_append _ _)
            (by rw [length_append]; exact hshort)
        exact h name mem_cons_self (hwithin.subset (by simp))
      obtain ⟨below, rfl⟩ := hname
      rw [append_assoc, prefix_append_right_inj] at hpre
      obtain ⟨front, hfront, rfl⟩ :=
        ih (fun other hother => h other (mem_cons_of_mem _ hother)) hpre
      exact ⟨name :: front, (prefix_cons_inj name).mpr hfront, by simp⟩

theorem wildcards_ne : '?' ≠ '*' := by decide

variable {pattern text path : List Char}

theorem bare_of_star (h : ['*'] <:+ pattern) : bare pattern = pattern := by
  obtain ⟨front, rfl⟩ := h
  unfold bare
  rw [if_neg]
  rintro ⟨-, back, hback⟩
  have hlast := congrArg List.getLast? hback
  simp at hlast

theorem InLanguage.extend (hstar : ['*'] <:+ pattern) (h : InLanguage pattern text)
    (rest : List Char) : InLanguage pattern (text ++ rest) := by
  obtain ⟨front, rfl⟩ := hstar
  exact Glob.Matches.extend wildcards_ne h

theorem covers_iff_of_star (hstar : ['*'] <:+ pattern) (hpath : path.head? = some '/') :
    Covers pattern path ↔ InLanguage pattern path := by
  unfold Covers
  rw [bare_of_star hstar]
  constructor
  · rintro ⟨directory, hmatch, rfl | ⟨rest, rfl⟩ | rfl⟩
    · exact hmatch
    · rw [append_assoc]
      exact hmatch.extend hstar _
    · obtain ⟨rest, rfl⟩ := head?_eq_some_iff.mp hpath
      exact hmatch.extend hstar rest
  · intro hmatch
    exact ⟨path, hmatch, .inl rfl⟩

theorem covers_of_inLanguage (h : InLanguage pattern path) :
    Covers pattern path := by
  by_cases hbare : pattern ≠ ['/'] ∧ ['/'] <:+ pattern
  · obtain ⟨hne, front, rfl⟩ := hbare
    have heq : bare (front ++ ['/']) = front := by
      unfold bare
      rw [if_pos ⟨hne, suffix_append _ _⟩, dropLast_concat]
    obtain ⟨directory, last, rfl, hdirectory, hlast⟩ := Glob.Matches.split wildcards_ne h
    have hlast : last = ['/'] := by
      have hplain : Glob.Plain '?' '*' ['/'] := by
        constructor <;> decide
      exact hplain.matches_iff.mp hlast
    subst hlast
    exact ⟨directory, by rwa [heq], .inr (.inl prefix_rfl)⟩
  · refine ⟨path, ?_, .inl rfl⟩
    unfold bare
    rwa [if_neg hbare]

theorem head?_bare (h : pattern.head? = some '/') :
    (bare pattern).head? = some '/' := by
  unfold bare
  split
  · rename_i hbare
    obtain ⟨hne, front, rfl⟩ := hbare
    rw [dropLast_concat]
    cases front with
    | nil => exact absurd rfl hne
    | cons c front => simpa using h
  · exact h

theorem head?_of_inLanguage (hpattern : pattern.head? = some '/') (h : InLanguage pattern text) :
    text.head? = some '/' := by
  obtain ⟨rest, rfl⟩ := head?_eq_some_iff.mp hpattern
  obtain ⟨more, rfl, -⟩ := (Glob.matches_literal_iff (by decide) (by decide)).mp h
  rfl

theorem allows_iff_covers {pattern : String} {names : List String}
    (hpattern : pattern.toList.head? = some '/') (hnames : ∀ name ∈ names, '/' ∉ name.toList) :
    Allows pattern names ↔ Covers pattern.toList (absoluteText names) := by
  constructor
  · rintro ⟨directory, ⟨below, rfl⟩, hmatch⟩
    refine ⟨_, hmatch, ?_⟩
    cases below with
    | nil => simp
    | cons name below =>
      cases directory with
      | nil => exact .inr (.inr rfl)
      | cons first directory =>
        refine .inr (.inl ?_)
        simp [absoluteText]
  · rintro ⟨directory, hmatch, rfl | hbelow | rfl⟩
    · exact ⟨names, prefix_rfl, hmatch⟩
    · have hhead := head?_of_inLanguage (head?_bare hpattern) hmatch
      unfold absoluteText at hbelow
      split at hbelow
      · have hlen := hbelow.length_le
        obtain ⟨rest, rfl⟩ := head?_eq_some_iff.mp hhead
        simp at hlen
      · obtain ⟨front, hfront, rfl⟩ := mem_flatMap_names hnames hbelow
        refine ⟨front, hfront, ?_⟩
        have hne : front ≠ [] := by
          rintro rfl
          cases hhead
        unfold absoluteText
        rwa [if_neg hne]
    · exact ⟨[], nil_prefix, hmatch⟩

theorem head?_normalizeSeparators (h : text.head? = some '/') :
    (normalizeSeparators text).head? = some '/' := by
  obtain ⟨rest, rfl⟩ := head?_eq_some_iff.mp h
  unfold normalizeSeparators replaceText replaceFrom
  split <;> rfl

theorem normalizeSeparators_eq_self (h : ¬['/', '/'] <:+: text) :
    normalizeSeparators text = text := by
  unfold normalizeSeparators replaceText
  induction text with
  | nil => rfl
  | cons c text ih =>
    have hrest : ¬['/', '/'] <:+: text := fun hwithin =>
      h (hwithin.trans (suffix_cons c text).isInfix)
    have hfront : ¬['/', '/'].isPrefixOf (c :: text) = true := by
      rw [List.isPrefixOf_iff_prefix]
      exact fun hfront => h hfront.isInfix
    unfold replaceFrom
    rw [if_neg hfront, ih hrest]

theorem mem_replaceFrom {c : Char} (hc : c ≠ '/') (skip : Nat) (h : c ∈ text.drop skip) :
    c ∈ replaceFrom ['/', '/'] ['/'] skip text := by
  induction text generalizing skip with
  | nil => simp at h
  | cons d text ih =>
    cases skip with
    | succ skip => exact ih skip h
    | zero =>
      unfold replaceFrom
      split
      · rename_i hfront
        obtain ⟨rest, hrest⟩ := isPrefixOf_iff_prefix.mp hfront
        cases hrest
        rw [drop_zero] at h
        have hmem : c ∈ rest := by simpa [hc] using h
        exact mem_append_right _ (ih 1 (by simpa using hmem))
      · rw [drop_zero] at h
        rcases mem_cons.mp h with rfl | h
        · exact mem_cons_self
        · exact mem_cons_of_mem _ (ih 0 (by simpa using h))

theorem mem_normalizeSeparators {c : Char} (hc : c ≠ '/') (h : c ∈ text) :
    c ∈ normalizeSeparators text :=
  mem_replaceFrom hc 0 (by simpa using h)

theorem hasWildcard_of_isGlob (h : isGlob pattern = true) :
    hasWildcard (normalizeSeparators pattern) = true := by
  have hsome : '*' ∈ pattern ∨ '?' ∈ pattern := by
    unfold isGlob at h
    rw [Bool.or_eq_true, Bool.or_eq_true] at h
    rcases h with (hone | hmany) | hfront
    · exact .inr (by simpa using hone)
    · exact .inl (mem_of_containsText hmany (by simp))
    · exact .inl ((List.isPrefixOf_iff_prefix.mp hfront).subset (by simp))
  unfold hasWildcard
  rw [Bool.or_eq_true, decide_eq_true_eq, decide_eq_true_eq]
  exact hsome.imp (mem_normalizeSeparators (by decide)) (mem_normalizeSeparators (by decide))

theorem trimEndMatches_append (pattern : List Char) (fuel : Nat) (cs : List Char) :
    ∃ count, cs = trimEndMatches pattern fuel cs ++ (List.replicate count pattern).flatten := by
  induction fuel generalizing cs with
  | zero => exact ⟨0, by simp [trimEndMatches]⟩
  | succ fuel ih =>
    unfold trimEndMatches
    split
    · exact ⟨0, by simp⟩
    · rename_i rest hrest
      obtain ⟨count, hcount⟩ := ih rest
      refine ⟨count + 1, ?_⟩
      rw [replicate_succ', flatten_append, ← append_assoc, ← hcount]
      simpa using stripSuffix_eq_some hrest

theorem trimEndMatches_append_of_suffix {cs : List Char} (hpattern : pattern ≠ [])
    (h : pattern <:+ cs) :
    ∃ count, cs = trimEndMatches pattern cs.length cs ++
      (List.replicate (count + 1) pattern).flatten := by
  obtain ⟨front, rfl⟩ := h
  have hlen := length_pos_iff.mpr hpattern
  obtain ⟨fuel, hfuel⟩ : ∃ fuel, (front ++ pattern).length = fuel + 1 :=
    ⟨(front ++ pattern).length - 1, by rw [length_append]; omega⟩
  have hstrip : stripSuffix pattern (front ++ pattern) = some front := by
    unfold stripSuffix
    rw [if_pos (isSuffixOf_iff_suffix.mpr (suffix_append _ _))]
    simp
  obtain ⟨count, hcount⟩ := trimEndMatches_append pattern fuel front
  refine ⟨count, ?_⟩
  rw [hfuel, trimEndMatches, hstrip, replicate_succ', flatten_append,
    ← append_assoc, ← hcount]
  simp

theorem directoryOf_append (h : endsInDirectoryStar pattern = true) :
    ∃ count, pattern = directoryOf pattern ++ (List.replicate (count + 1) ['/', '*']).flatten :=
  trimEndMatches_append_of_suffix (by simp) (isSuffixOf_iff_suffix.mp h)

theorem stemOf_append (h : ['*'] <:+ pattern) :
    ∃ count, pattern = stemOf pattern ++ List.replicate (count + 1) '*' := by
  obtain ⟨count, hcount⟩ := trimEndMatches_append_of_suffix (by simp) h
  refine ⟨count, ?_⟩
  rwa [flatten_replicate_singleton] at hcount

theorem globMatches_iff :
    globMatches pattern path = true ↔ InLanguage pattern path := by
  unfold InLanguage
  rw [← Glob.isMatch_iff wildcards_ne]
  induction pattern generalizing path with
  | nil => rfl
  | cons c pattern ih =>
    unfold globMatches Glob.isMatch
    by_cases hstar : c = '*'
    · rw [if_pos hstar, if_pos hstar]
      by_cases hlast : pattern = []
      · subst hlast
        rw [if_pos rfl]
        simp only [any_eq_true, mem_range, true_iff]
        exact ⟨path.length, by omega, by simp [Glob.isMatch]⟩
      · rw [if_neg hlast]
        simp only [any_eq_true, ih]
    · rw [if_neg hstar, if_neg hstar]
      cases path with
      | nil => simp
      | cons d path =>
        simp only [Bool.and_eq_true, Bool.or_eq_true, decide_eq_true_eq, ih]
        rw [@eq_comm _ d c]

/-- `glob_match_recursive`. Nothing where the subtraction underflows. -/
def globMatchRecursive (pattern path : List Char) (p s : Nat) : Option Bool :=
  if hp : p < pattern.length then
    if pattern[p] = '*' then
      if p + 1 ≥ pattern.length then some true
      else if s ≤ path.length then
        (List.range (path.length - s + 1)).anyM fun skip =>
          globMatchRecursive pattern path (p + 1) (s + skip)
      else none
    else if pattern[p] = '?' then
      if s ≥ path.length then some false else globMatchRecursive pattern path (p + 1) (s + 1)
    else if s ≥ path.length || path[s]? ≠ some pattern[p] then some false
    else globMatchRecursive pattern path (p + 1) (s + 1)
  else some (s ≥ path.length)
termination_by pattern.length - p

theorem anyM_some {α : Type} (f : α → Option Bool) (g : α → Bool) {items : List α}
    (h : ∀ item ∈ items, f item = some (g item)) : items.anyM f = some (items.any g) := by
  induction items with
  | nil => rfl
  | cons item items ih =>
    have hitems := ih fun other hmem => h other (mem_cons_of_mem _ hmem)
    rw [List.anyM, h item mem_cons_self]
    cases hg : g item with
    | true => simp [hg]
    | false => simpa [hg] using hitems

/-- From indices within the texts the matcher returns, and says what
`globMatches` says of the rests of the texts. -/
theorem globMatchRecursive_eq (pattern path : List Char) {p s : Nat} (hs : s ≤ path.length) :
    globMatchRecursive pattern path p s =
      some (globMatches (pattern.drop p) (path.drop s)) := by
  induction hleft : pattern.length - p generalizing p s with
  | zero =>
    have hp : ¬p < pattern.length := by omega
    have hdrop : pattern.drop p = [] := drop_eq_nil_of_le (by omega)
    rw [globMatchRecursive, dif_neg hp, hdrop, globMatches]
    congr 1
    rw [Bool.eq_iff_iff, decide_eq_true_iff, List.isEmpty_iff, drop_eq_nil_iff]
  | succ left ih =>
    have hp : p < pattern.length := by omega
    have hnext : pattern.length - (p + 1) = left := by omega
    rw [globMatchRecursive, dif_pos hp, drop_eq_getElem_cons hp]
    unfold globMatches
    by_cases hstar : pattern[p] = '*'
    · rw [if_pos hstar, if_pos hstar]
      by_cases hlast : p + 1 ≥ pattern.length
      · rw [if_pos hlast, if_pos (drop_eq_nil_of_le hlast)]
      · rw [if_neg hlast, if_pos hs, if_neg (by rw [drop_eq_nil_iff]; exact hlast),
          length_drop]
        apply anyM_some
        intro skip hskip
        rw [mem_range] at hskip
        rw [ih (by omega) hnext, drop_drop]
    · rw [if_neg hstar, if_neg hstar]
      rcases Nat.lt_or_ge s path.length with hlt | hge
      · rw [drop_eq_getElem_cons hlt]
        by_cases hmark : pattern[p] = '?'
        · rw [if_pos hmark, if_neg (by omega), ih hlt hnext]
          simp [hmark]
        · rw [if_neg hmark]
          by_cases hsame : path[s] = pattern[p]
          · rw [if_neg (by simp [hsame, hlt]), ih hlt hnext]
            simp [hsame]
          · rw [if_pos (by simp [hsame, hlt])]
            simp [hmark, hsame]
      · rw [drop_eq_nil_of_le hge]
        by_cases hmark : pattern[p] = '?'
        · rw [if_pos hmark, if_pos hge]
        · rw [if_neg hmark, if_pos (by simp [hge])]

/-- The matcher returns for every pattern and path, with no subtraction below
zero, and accepts exactly the language of the pattern. -/
theorem globMatchRecursive_accepts (pattern path : String) :
    ∃ accepted, globMatchRecursive pattern.toList path.toList 0 0 = some accepted ∧
      (accepted = true ↔ InLanguage pattern.toList path.toList) :=
  ⟨globMatches pattern.toList path.toList,
    globMatchRecursive_eq pattern.toList path.toList (Nat.zero_le _), globMatches_iff⟩
theorem componentMatch_eq_false (h : '/' ∈ pattern) (path : List Char) :
    componentMatch pattern path = false := by
  unfold componentMatch
  rw [Bool.or_eq_false_iff]
  constructor
  · rw [any_eq_false]
    intro component hcomponent heq
    rw [decide_eq_true_eq] at heq
    exact Cuts.sep_notMem_of_mem_splitOn hcomponent (heq ▸ h)
  · rw [any_eq_false]
    intro component hcomponent hcontains
    exact Cuts.sep_notMem_of_mem_splitOn hcomponent (mem_of_containsText hcontains h)

end DbClinic.Runtime.TrustConfig
