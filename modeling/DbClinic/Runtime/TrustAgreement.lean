import DbClinic.Lib.FileTree
import DbClinic.Runtime.TrustLanguage

/-!
What an allowlist pattern allows, against its language. The resolver decides by the shape of
the pattern, with several tests in a row that each may decide early, and it agrees with the
language exactly on the pairs described here.
-/

namespace DbClinic.Runtime.TrustConfig

open List

/-- The tests after the comparison of the texts. -/
def decides (pattern normalized path : List Char) : Bool :=
  ((directoryMatch normalized path).or (trailingStarMatch normalized path)).getD
    (componentMatch normalized path || (isGlob pattern && globMatches normalized path))

/-- The pattern and the path are of the kinds that the tests judge by the language. -/
structure Fits (pattern normalized path : List Char) : Prop where
  /-- A pattern without wildcards that ends in a separator allows only its own text. -/
  directory : hasWildcard normalized = false → ['/'] <:+ normalized →
    normalized = path ∨ ¬Covers normalized path
  /-- In front of `/*` the text is compared as it is. The directory itself is allowed, and so
  is what lies below it in too few components. -/
  children : endsInDirectoryStar normalized = true → directoryOf normalized <+: path →
    if continues (path.drop (directoryOf normalized).length) = true then
      normalized.count '/' ≤ path.count '/'
    else ¬InLanguage normalized path
  /-- In front of another star at the end the directory of that text is shut out. -/
  stem : endsInStar normalized = true → stemOf normalized <+: path →
    (path.drop (stemOf normalized).length).head? ≠ some '/'
  /-- The other patterns are matched if they have `?` or a component `*`, and the directories
  above the path do not count. -/
  glob : hasWildcard normalized = true →
    ¬(endsInDirectoryStar normalized = true ∧ directoryOf normalized <+: path) →
    ¬(endsInStar normalized = true ∧ stemOf normalized <+: path) → Covers normalized path →
    pattern = path ∨ (isGlob pattern = true ∧ InLanguage normalized path)

section Agreement

variable {pattern normalized path : List Char}

theorem hasWildcard_of_star (h : '*' ∈ normalized) : hasWildcard normalized = true := by
  simp [hasWildcard, h]

theorem star_of_endsInDirectoryStar (h : endsInDirectoryStar normalized = true) :
    ['*'] <:+ normalized := by
  have hsuf : ['*'] <:+ ['/', '*'] := ⟨['/'], rfl⟩
  exact hsuf.trans (isSuffixOf_iff_suffix.mp h)

theorem star_of_endsInStar (h : endsInStar normalized = true) : ['*'] <:+ normalized := by
  unfold endsInStar at h
  rw [Bool.and_eq_true, Bool.and_eq_true] at h
  exact isSuffixOf_iff_suffix.mp h.1.2

theorem not_endsInDirectoryStar (h : endsInStar normalized = true) :
    endsInDirectoryStar normalized = false := by
  unfold endsInStar at h
  rw [Bool.and_eq_true, Bool.and_eq_true, Bool.not_eq_true'] at h
  exact h.1.1

theorem decides_of_plain (hplain : hasWildcard normalized = false)
    (hglob : isGlob pattern = false) (hsep : '/' ∈ normalized) :
    decides pattern normalized path = true ↔
      ∃ rest, path = normalized ++ rest ∧ continues rest = true := by
  have hstar : '*' ∉ normalized := by
    intro hstar
    rw [hasWildcard_of_star hstar] at hplain
    cases hplain
  have hchildren : endsInDirectoryStar normalized = false := by
    rw [Bool.eq_false_iff]
    exact fun h => hstar ((star_of_endsInDirectoryStar h).subset (by simp))
  have hstem : endsInStar normalized = false := by
    rw [Bool.eq_false_iff]
    exact fun h => hstar ((star_of_endsInStar h).subset (by simp))
  unfold decides directoryMatch trailingStarMatch
  rw [hplain, hchildren, hstem, hglob, componentMatch_eq_false hsep]
  cases hstrip : stripPrefix normalized path with
  | none =>
    have hnot := stripPrefix_eq_none_iff.mp hstrip
    simp only [Bool.false_eq_true, if_false, Option.map_none, Option.or_none, Option.getD_none,
      Bool.false_or, Bool.false_and, false_iff]
    rintro ⟨rest, rfl, -⟩
    exact hnot (prefix_append _ _)
  | some rest =>
    have heq := stripPrefix_eq_some_iff.mp hstrip
    subst heq
    simp

theorem decides_of_children (hchildren : endsInDirectoryStar normalized = true)
    (hbegins : directoryOf normalized <+: path) :
    decides pattern normalized path = continues (path.drop (directoryOf normalized).length) := by
  have hwild := hasWildcard_of_star ((star_of_endsInDirectoryStar hchildren).subset (by simp))
  obtain ⟨rest, rfl⟩ := hbegins
  unfold decides directoryMatch trailingStarMatch
  rw [hwild, hchildren, stripPrefix_eq_some_iff.mpr rfl]
  simp

theorem decides_of_stem (hstem : endsInStar normalized = true)
    (hbegins : stemOf normalized <+: path) :
    decides pattern normalized path = true ↔
      (path.drop (stemOf normalized).length).head? ≠ some '/' := by
  have hwild := hasWildcard_of_star ((star_of_endsInStar hstem).subset (by simp))
  obtain ⟨rest, rfl⟩ := hbegins
  unfold decides directoryMatch trailingStarMatch
  rw [hwild, not_endsInDirectoryStar hstem, hstem, stripPrefix_eq_some_iff.mpr rfl]
  cases rest <;> simp

theorem decides_of_glob (hwild : hasWildcard normalized = true)
    (hchildren : ¬(endsInDirectoryStar normalized = true ∧ directoryOf normalized <+: path))
    (hstem : ¬(endsInStar normalized = true ∧ stemOf normalized <+: path))
    (hsep : '/' ∈ normalized) :
    decides pattern normalized path = true ↔
      isGlob pattern = true ∧ InLanguage normalized path := by
  have hnone : (directoryMatch normalized path).or (trailingStarMatch normalized path) = none := by
    unfold directoryMatch trailingStarMatch
    rw [hwild]
    cases hfirst : endsInDirectoryStar normalized with
    | true =>
      have hnot : ¬directoryOf normalized <+: path := fun h => hchildren ⟨hfirst, h⟩
      rw [stripPrefix_eq_none_iff.mpr hnot]
      rfl
    | false =>
      cases hsecond : endsInStar normalized with
      | true =>
        have hnot : ¬stemOf normalized <+: path := fun h => hstem ⟨hsecond, h⟩
        rw [stripPrefix_eq_none_iff.mpr hnot]
        rfl
      | false => rfl
  unfold decides
  rw [hnone, componentMatch_eq_false hsep, Option.getD_none, Bool.false_or, Bool.and_eq_true,
    globMatches_iff]

variable (hhead : normalized.head? = some '/') (hpath : path.head? = some '/')
  (hsame : pattern = path → normalized = path)

theorem fits_of_plain (hplain : hasWildcard normalized = false) :
    Fits pattern normalized path ↔
      (['/'] <:+ normalized → normalized = path ∨ ¬Covers normalized path) := by
  have hstar : '*' ∉ normalized := by
    intro hstar
    rw [hasWildcard_of_star hstar] at hplain
    cases hplain
  constructor
  · intro h
    exact h.directory hplain
  · intro h
    refine ⟨fun _ => h, ?_, ?_, ?_⟩
    · intro hchildren
      exact absurd ((star_of_endsInDirectoryStar hchildren).subset (by simp)) hstar
    · intro hstem
      exact absurd ((star_of_endsInStar hstem).subset (by simp)) hstar
    · intro hwild
      rw [hplain] at hwild
      cases hwild

theorem fits_of_children (hchildren : endsInDirectoryStar normalized = true)
    (hbegins : directoryOf normalized <+: path) :
    Fits pattern normalized path ↔
      if continues (path.drop (directoryOf normalized).length) = true then
        normalized.count '/' ≤ path.count '/'
      else ¬InLanguage normalized path := by
  have hwild := hasWildcard_of_star ((star_of_endsInDirectoryStar hchildren).subset (by simp))
  constructor
  · intro h
    exact h.children hchildren hbegins
  · intro h
    refine ⟨?_, fun _ _ => h, ?_, fun _ hnot => absurd ⟨hchildren, hbegins⟩ hnot⟩
    · intro hplain
      rw [hwild] at hplain
      cases hplain
    · intro hstem
      rw [not_endsInDirectoryStar hstem] at hchildren
      cases hchildren

theorem fits_of_stem (hstem : endsInStar normalized = true)
    (hbegins : stemOf normalized <+: path) :
    Fits pattern normalized path ↔ (path.drop (stemOf normalized).length).head? ≠ some '/' := by
  have hwild := hasWildcard_of_star ((star_of_endsInStar hstem).subset (by simp))
  constructor
  · intro h
    exact h.stem hstem hbegins
  · intro h
    refine ⟨?_, ?_, fun _ _ => h, fun _ _ hnot => absurd ⟨hstem, hbegins⟩ hnot⟩
    · intro hplain
      rw [hwild] at hplain
      cases hplain
    · intro hchildren
      rw [not_endsInDirectoryStar hstem] at hchildren
      cases hchildren

theorem continues_iff {rest : List Char} :
    continues rest = true ↔ rest = [] ∨ ∃ more, rest = '/' :: more := by
  unfold continues
  rw [Bool.or_eq_true, decide_eq_true_eq, decide_eq_true_eq, head?_eq_some_iff]

theorem eq_of_continues (hdouble : ¬['/', '/'] <:+: path) (hsep : ['/'] <:+ normalized)
    {rest : List Char} (hpath : path = normalized ++ rest) (hrest : continues rest = true) :
    normalized = path := by
  rcases continues_iff.mp hrest with rfl | ⟨more, rfl⟩
  · rw [hpath, append_nil]
  · obtain ⟨front, rfl⟩ := hsep
    exact absurd ⟨front, more, by simp [hpath]⟩ hdouble

theorem covers_iff_of_plain (hplain : hasWildcard normalized = false)
    (hsep : ¬['/'] <:+ normalized) :
    Covers normalized path ↔ ∃ rest, path = normalized ++ rest ∧ continues rest = true := by
  have hbare : bare normalized = normalized := by
    unfold bare
    rw [if_neg]
    exact fun h => hsep h.2
  have hmatch : Glob.Plain '?' '*' normalized := by
    simpa [hasWildcard, Glob.Plain, and_comm] using hplain
  unfold Covers InLanguage
  rw [hbare]
  simp only [hmatch.matches_iff, continues_iff]
  constructor
  · rintro ⟨directory, rfl, rfl | ⟨rest, rfl⟩ | rfl⟩
    · exact ⟨[], by simp, .inl rfl⟩
    · exact ⟨'/' :: rest, by simp, .inr ⟨rest, rfl⟩⟩
    · exact absurd suffix_rfl hsep
  · rintro ⟨rest, rfl, rfl | ⟨more, rfl⟩⟩
    · exact ⟨normalized, rfl, .inl (by simp)⟩
    · exact ⟨normalized, rfl, .inr (.inl ⟨more, by simp⟩)⟩

include hhead hsame in
theorem agree_of_plain (hdouble : ¬['/', '/'] <:+: path) (hplain : hasWildcard normalized = false)
    (hglob : isGlob pattern = false) :
    ((pattern = path ∨ decides pattern normalized path = true) ↔ Covers normalized path) ↔
      Fits pattern normalized path := by
  have hcompared : normalized = path → ∃ rest, path = normalized ++ rest ∧ continues rest = true :=
    fun h => ⟨[], by simp [h], rfl⟩
  rw [decides_of_plain hplain hglob (mem_of_mem_head? hhead), fits_of_plain hplain]
  by_cases hsep : ['/'] <:+ normalized
  · have hequal : (pattern = path ∨ ∃ rest, path = normalized ++ rest ∧ continues rest = true) ↔
        normalized = path := by
      constructor
      · rintro (hpattern | ⟨rest, hrest, hcontinues⟩)
        · exact hsame hpattern
        · exact eq_of_continues hdouble hsep hrest hcontinues
      · exact fun h => .inr (hcompared h)
    have hcovers : normalized = path → Covers normalized path := by
      rintro rfl
      exact covers_of_inLanguage (Glob.matches_self normalized)
    rw [hequal]
    constructor
    · intro h _
      by_cases hcovered : Covers normalized path
      · exact .inl (h.mpr hcovered)
      · exact .inr hcovered
    · intro h
      exact ⟨hcovers, fun hcovered => (h hsep).resolve_right (not_not_intro hcovered)⟩
  · rw [covers_iff_of_plain hplain hsep]
    apply iff_of_true
    · exact ⟨fun h => h.elim (fun heq => hcompared (hsame heq)) id, .inr⟩
    · exact fun h => absurd h hsep

theorem inLanguage_iff_count_le (hchildren : endsInDirectoryStar normalized = true)
    (hbegins : directoryOf normalized <+: path)
    (hcontinues : continues (path.drop (directoryOf normalized).length) = true) :
    InLanguage normalized path ↔ normalized.count '/' ≤ path.count '/' := by
  obtain ⟨count, hcount⟩ := directoryOf_append hchildren
  constructor
  · intro h
    exact h.count_le (by decide) (by decide)
  · intro hle
    obtain ⟨rest, rfl⟩ := hbegins
    rw [drop_left] at hcontinues
    have hpieces : count + 1 ≤ rest.count '/' := by
      have hsplit := congrArg (List.count '/') hcount
      have hpiece : (List.replicate (count + 1) ['/', '*']).flatten.count '/' = count + 1 := by
        simp [count_flatten]
      rw [count_append, hpiece] at hsplit
      rw [count_append] at hle
      omega
    have hrest : rest.head? = some '/' := by
      rcases continues_iff.mp hcontinues with rfl | ⟨more, rfl⟩
      · simp at hpieces
      · rfl
    unfold InLanguage
    nth_rewrite 1 [hcount]
    exact (Glob.matches_self _).append (Glob.matches_pieces (by decide) (by decide) hrest hpieces)

include hpath hsame in
theorem agree_of_children (hchildren : endsInDirectoryStar normalized = true)
    (hbegins : directoryOf normalized <+: path) :
    ((pattern = path ∨ decides pattern normalized path = true) ↔ Covers normalized path) ↔
      Fits pattern normalized path := by
  have hcompared : pattern = path →
      continues (path.drop (directoryOf normalized).length) = true := by
    intro h
    obtain ⟨count, hcount⟩ := directoryOf_append hchildren
    have hdrop := congrArg (List.drop (directoryOf normalized).length) hcount
    rw [drop_left] at hdrop
    rw [← hsame h, hdrop]
    simp [continues, replicate_succ]
  rw [decides_of_children hchildren hbegins,
    covers_iff_of_star (star_of_endsInDirectoryStar hchildren) hpath,
    fits_of_children hchildren hbegins]
  split
  · rename_i hcontinues
    rw [← inLanguage_iff_count_le hchildren hbegins hcontinues]
    constructor
    · intro h
      exact h.mp (.inr hcontinues)
    · intro h
      exact iff_of_true (.inr hcontinues) h
  · rename_i hcontinues
    have hnot : ¬(pattern = path ∨
        continues (path.drop (directoryOf normalized).length) = true) := fun h =>
      hcontinues (h.elim hcompared id)
    constructor
    · intro h hmatch
      exact hnot (h.mpr hmatch)
    · intro h
      exact iff_of_false hnot h

include hpath hsame in
theorem agree_of_stem (hstem : endsInStar normalized = true)
    (hbegins : stemOf normalized <+: path) :
    ((pattern = path ∨ decides pattern normalized path = true) ↔ Covers normalized path) ↔
      Fits pattern normalized path := by
  have hstar := star_of_endsInStar hstem
  obtain ⟨count, hcount⟩ := stemOf_append hstar
  have hlanguage : InLanguage normalized path := by
    unfold InLanguage
    rw [hcount]
    exact Glob.matches_of_prefix hbegins count
  have hcompared : pattern = path →
      (path.drop (stemOf normalized).length).head? ≠ some '/' := by
    intro h
    have hdrop := congrArg (List.drop (stemOf normalized).length) hcount
    rw [drop_left] at hdrop
    rw [← hsame h, hdrop]
    simp [replicate_succ]
  rw [decides_of_stem hstem hbegins, covers_iff_of_star hstar hpath, fits_of_stem hstem hbegins]
  constructor
  · intro h
    exact (h.mpr hlanguage).elim hcompared id
  · intro h
    exact iff_of_true (.inr h) hlanguage

include hhead hsame in
theorem agree_of_glob (hwild : hasWildcard normalized = true)
    (hchildren : ¬(endsInDirectoryStar normalized = true ∧ directoryOf normalized <+: path))
    (hstem : ¬(endsInStar normalized = true ∧ stemOf normalized <+: path)) :
    ((pattern = path ∨ decides pattern normalized path = true) ↔ Covers normalized path) ↔
      Fits pattern normalized path := by
  rw [decides_of_glob hwild hchildren hstem (mem_of_mem_head? hhead)]
  have hcovers : pattern = path ∨ (isGlob pattern = true ∧ InLanguage normalized path) →
      Covers normalized path := by
    rintro (hpattern | ⟨-, hmatch⟩)
    · apply covers_of_inLanguage
      rw [← hsame hpattern]
      exact Glob.matches_self normalized
    · exact covers_of_inLanguage hmatch
  constructor
  · intro h
    refine ⟨?_, fun hfirst hbegins => absurd ⟨hfirst, hbegins⟩ hchildren,
      fun hsecond hbegins => absurd ⟨hsecond, hbegins⟩ hstem, fun _ _ _ => h.mpr⟩
    intro hplain
    rw [hwild] at hplain
    cases hplain
  · intro h
    exact ⟨hcovers, h.glob hwild hchildren hstem⟩

include hhead hpath hsame in
theorem agree_iff_fits (hdouble : ¬['/', '/'] <:+: path)
    (hglob : isGlob pattern = true → hasWildcard normalized = true) :
    ((pattern = path ∨ decides pattern normalized path = true) ↔ Covers normalized path) ↔
      Fits pattern normalized path := by
  cases hwild : hasWildcard normalized with
  | false =>
    apply agree_of_plain hhead hsame hdouble hwild
    rw [Bool.eq_false_iff]
    intro h
    rw [hglob h] at hwild
    cases hwild
  | true =>
    by_cases hchildren : endsInDirectoryStar normalized = true ∧ directoryOf normalized <+: path
    · exact agree_of_children hpath hsame hchildren.1 hchildren.2
    · by_cases hstem : endsInStar normalized = true ∧ stemOf normalized <+: path
      · exact agree_of_stem hpath hsame hstem.1 hstem.2
      · exact agree_of_glob hhead hsame hwild hchildren hstem

end Agreement

theorem head?_absoluteText (names : List String) : (absoluteText names).head? = some '/' := by
  unfold absoluteText
  cases names <;> simp

theorem infix_of_append {front text : List Char} (hfront : '/' ∉ front)
    (h : ['/', '/'] <:+: front ++ text) : ['/', '/'] <:+: text := by
  induction front with
  | nil => exact h
  | cons c front ih =>
    rw [mem_cons, not_or] at hfront
    rw [cons_append, infix_cons_iff, cons_prefix_cons] at h
    rcases h with ⟨heq, -⟩ | h
    · exact absurd heq hfront.1
    · exact ih hfront.2 h

theorem not_double_absoluteText {names : List String} (h : ∀ name ∈ names, Path.IsName name) :
    ¬['/', '/'] <:+: absoluteText names := by
  unfold absoluteText
  split
  · intro hdouble
    have hlen := hdouble.length_le
    simp at hlen
  · clear * - h
    induction names with
    | nil => simp
    | cons name rest ih =>
      have hname := h name mem_cons_self
      have hsep : '/' ∉ name.toList := hname.2.2.2
      rw [flatMap_cons, cons_append, infix_cons_iff]
      rintro (hbegins | hwithin)
      · rw [cons_prefix_cons] at hbegins
        cases hchars : name.toList with
        | nil => exact hname.1 (String.toList_eq_nil_iff.mp hchars)
        | cons c chars =>
          rw [hchars, cons_append, cons_prefix_cons] at hbegins
          obtain ⟨-, rfl, -⟩ := hbegins
          exact hsep (by simp [hchars])
      · exact ih (fun other hother => h other (mem_cons_of_mem _ hother))
          (infix_of_append hsep hwithin)

theorem head?_trim_of_separator {text : List Char} (h : text.head? = some '/') :
    (trim text).head? = some '/' := by
  have hblank : ∀ c ∈ text.head?, isWhitespace c = false := by
    rw [h]
    rintro c ⟨⟩
    decide
  have hne : trimEnd text ≠ [] :=
    trimEnd_ne_nil (mem_of_mem_head? h) (hblank '/' h)
  obtain ⟨blank, hblanks, -⟩ := trimEnd_append_blank text
  rw [hblanks, head?_append_of_ne_nil _ hne] at h
  rw [trim_of_head hblank]
  exact h

section Decision

variable {pattern : String} {names : List String}

theorem patternMatches_eq_true_iff (hnames : ∀ name ∈ names, Path.IsName name) :
    patternMatches pattern (String.ofList (absoluteText names)) = true ↔
      trim pattern.toList = trim (absoluteText names) ∨
        decides (trim pattern.toList) (normalizeSeparators (trim pattern.toList))
          (trim (absoluteText names)) = true := by
  have hself : normalizeSeparators (trim (absoluteText names)) = trim (absoluteText names) :=
    normalizeSeparators_eq_self fun h =>
      not_double_absoluteText hnames (h.trans (infix_trim (absoluteText names)))
  unfold patternMatches decides
  simp only [String.toList_ofList, hself]
  split
  · rename_i heq
    simp [heq]
  · rename_i hne
    simp [hne]

theorem patternMatches_iff_covers_iff (hpattern : pattern.toList.head? = some '/')
    (hnames : ∀ name ∈ names, Path.IsName name) :
    (patternMatches pattern (String.ofList (absoluteText names)) = true ↔
        Covers (normalizeSeparators (trim pattern.toList)) (trim (absoluteText names))) ↔
      Fits (trim pattern.toList) (normalizeSeparators (trim pattern.toList))
        (trim (absoluteText names)) := by
  have hdouble : ¬['/', '/'] <:+: trim (absoluteText names) := fun h =>
    not_double_absoluteText hnames (h.trans (infix_trim (absoluteText names)))
  rw [patternMatches_eq_true_iff hnames]
  apply agree_iff_fits
  · exact head?_normalizeSeparators (head?_trim_of_separator hpattern)
  · exact head?_trim_of_separator (head?_absoluteText names)
  · intro h
    rw [h]
    exact normalizeSeparators_eq_self hdouble
  · exact hdouble
  · exact hasWildcard_of_isGlob

instance : Decidable (Allows pattern names) :=
  decidable_of_iff
    (∃ directory ∈ names.inits, globMatches (bare pattern.toList) (absoluteText directory) = true)
    (by simp only [mem_inits, globMatches_iff]; rfl)

/-- A path is allowed as the language says exactly if the tests fit the pattern and the path, or
if both they and the cleaning of the two texts judge otherwise. -/
theorem patternMatches_iff_allows_iff (hpattern : pattern.toList.head? = some '/')
    (hnames : ∀ name ∈ names, Path.IsName name) :
    (patternMatches pattern (String.ofList (absoluteText names)) = true ↔ Allows pattern names) ↔
      (Fits (trim pattern.toList) (normalizeSeparators (trim pattern.toList))
          (trim (absoluteText names)) ↔
        (Covers (normalizeSeparators (trim pattern.toList)) (trim (absoluteText names)) ↔
          Covers pattern.toList (absoluteText names))) := by
  rw [← patternMatches_iff_covers_iff hpattern hnames,
    allows_iff_covers hpattern fun name hname => (hnames name hname).2.2.2]
  constructor
  · intro h
    rw [h]
    exact iff_comm
  · intro h
    by_cases hcovered : Covers (normalizeSeparators (trim pattern.toList))
        (trim (absoluteText names))
    · simpa only [hcovered, iff_true, true_iff] using h
    · simpa only [hcovered, iff_false, false_iff, not_iff_not] using h

theorem patternMatches_iff_allows_iff_worktree :
    "/tmp/worktrees".toList.head? = some '/' ∧ (∀ name ∈ ["tmp", "worktrees", "repo-a"],
        Path.IsName name) ∧
      ((patternMatches "/tmp/worktrees"
          (String.ofList (absoluteText ["tmp", "worktrees", "repo-a"])) = true ↔
        Allows "/tmp/worktrees" ["tmp", "worktrees", "repo-a"]) ↔
      (Fits (trim "/tmp/worktrees".toList) (normalizeSeparators (trim "/tmp/worktrees".toList))
          (trim (absoluteText ["tmp", "worktrees", "repo-a"])) ↔
        (Covers (normalizeSeparators (trim "/tmp/worktrees".toList))
            (trim (absoluteText ["tmp", "worktrees", "repo-a"])) ↔
          Covers "/tmp/worktrees".toList (absoluteText ["tmp", "worktrees", "repo-a"])))) :=
  ⟨by decide +kernel, by decide +kernel,
    patternMatches_iff_allows_iff (by decide +kernel) (by decide +kernel)⟩

/-- A star inside a component is not honoured, and `/*` allows the directory above. -/
theorem not_patternMatches_iff_allows :
    (patternMatches "/tmp/re*po" (String.ofList (absoluteText ["tmp", "repo"])) = false ∧
        Allows "/tmp/re*po" ["tmp", "repo"]) ∧
      patternMatches "/tmp/*" (String.ofList (absoluteText ["tmp"])) = true ∧
        ¬Allows "/tmp/*" ["tmp"] := by
  decide +kernel

end Decision

end DbClinic.Runtime.TrustConfig
