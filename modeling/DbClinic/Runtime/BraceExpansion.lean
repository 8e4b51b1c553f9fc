import DbClinic.Runtime.Text

/-!
The braces of a glob pattern. The first group is replaced by each of its
alternatives, and the patterns that this makes are expanded again; each of them has
one closing brace less. A pattern whose groups are balanced and not nested comes out
as all its choices, in the order of the alternatives.
-/

namespace DbClinic.Runtime

open List

/-- What is before the first opening brace, what is between it and the first closing
brace behind it, and what is behind that. -/
def firstGroup (pattern : List Char) : Option (List Char × List Char × List Char) := do
  let (front, more) ← splitOnce ['\x7b'] pattern
  let (alternatives, suffix) ← splitOnce ['\x7d'] more
  return (front, alternatives, suffix)

variable {pattern front alternatives suffix : List Char}

theorem firstGroup_eq (h : firstGroup pattern = some (front, alternatives, suffix)) :
    pattern = front ++ '\x7b' :: (alternatives ++ '\x7d' :: suffix) ∧ '\x7d' ∉ alternatives := by
  simp only [firstGroup, Option.bind_eq_bind, Option.bind_eq_some_iff, Prod.exists] at h
  obtain ⟨front', more, hopen, alternatives', suffix', hclose, hsame⟩ := h
  obtain ⟨rfl, rfl, rfl⟩ : front' = front ∧ alternatives' = alternatives ∧ suffix' = suffix := by
    simpa using hsame
  refine ⟨?_, not_mem_of_splitOnce hclose⟩
  simp [splitOnce_eq hopen, splitOnce_eq hclose]

theorem firstGroup_group (hfront : '\x7b' ∉ front) (halternatives : '\x7d' ∉ alternatives)
    (suffix : List Char) :
    firstGroup (front ++ '\x7b' :: (alternatives ++ '\x7d' :: suffix)) =
      some (front, alternatives, suffix) := by
  simp [firstGroup, splitOnce_singleton hfront, splitOnce_singleton halternatives]

theorem firstGroup_text (h : '\x7b' ∉ pattern) :
    firstGroup pattern = none := by
  have hnone : splitOnce ['\x7b'] pattern = none := by
    rw [splitOnce_eq_none_iff]
    intro hwithin
    exact h (hwithin.subset (mem_singleton_self _))
  simp [firstGroup, hnone]

theorem count_close_lt {alternative : List Char}
    (h : firstGroup pattern = some (front, alternatives, suffix))
    (hmem : alternative ∈ alternatives.splitOn ',') :
    (front ++ alternative ++ suffix).count '\x7d' < pattern.count '\x7d' := by
  obtain ⟨rfl, halternatives⟩ := firstGroup_eq h
  have hnone : '\x7d' ∉ alternative := fun hc =>
    halternatives ((infix_of_mem_splitOnP hmem).subset hc)
  simp [count_eq_zero_of_not_mem hnone]
  omega

/-- `expand_braces`. -/
def expandBraces (pattern : List Char) : List (List Char) :=
  match _hgroup : firstGroup pattern with
  | none => [pattern]
  | some (front, alternatives, suffix) =>
    (alternatives.splitOn ',').attach.flatMap fun alternative =>
      expandBraces (front ++ alternative.1 ++ suffix)
termination_by pattern.count '\x7d'
decreasing_by exact count_close_lt _hgroup alternative.2

theorem expandBraces_none (h : firstGroup pattern = none) :
    expandBraces pattern = [pattern] := by
  rw [expandBraces]
  split
  · rfl
  · rename_i hsome
    rw [h] at hsome
    cases hsome

theorem expandBraces_some (h : firstGroup pattern = some (front, alternatives, suffix)) :
    expandBraces pattern = (alternatives.splitOn ',').flatMap fun alternative =>
      expandBraces (front ++ alternative ++ suffix) := by
  rw [expandBraces]
  split
  · rename_i hnone
    rw [h] at hnone
    cases hnone
  · rename_i hsome
    rw [h] at hsome
    cases hsome
    simp

inductive Piece where
  | text (cs : List Char)
  | group (alternatives : List (List Char))

/-- Neither a text nor an alternative has braces; an alternative has no comma, and a
group has at least one. -/
def Piece.Plain : Piece → Prop
  | text cs => '\x7b' ∉ cs ∧ '\x7d' ∉ cs
  | group alternatives => alternatives ≠ [] ∧
      ∀ cs ∈ alternatives, '\x7b' ∉ cs ∧ '\x7d' ∉ cs ∧ ',' ∉ cs

def Piece.render : Piece → List Char
  | text cs => cs
  | group alternatives => '\x7b' :: ([','].intercalate alternatives ++ ['\x7d'])

def renderPieces (pieces : List Piece) : List Char := pieces.flatMap Piece.render

/-- One alternative for each group; the first group varies slowest. -/
def choices : List Piece → List (List Char)
  | [] => [[]]
  | .text cs :: rest => (choices rest).map (cs ++ ·)
  | .group alternatives :: rest =>
    alternatives.flatMap fun alternative => (choices rest).map (alternative ++ ·)

theorem not_mem_intercalate {c : Char} {parts : List (List Char)} (hcomma : c ≠ ',')
    (h : ∀ cs ∈ parts, c ∉ cs) : c ∉ [','].intercalate parts := by
  induction parts with
  | nil => simp
  | cons first parts ih =>
    obtain ⟨hfirst, hmore⟩ := forall_mem_cons.mp h
    cases parts with
    | nil => simpa using hfirst
    | cons second parts =>
      have hrest := ih hmore
      simp only [intercalate_cons_cons, mem_append, mem_singleton, not_or]
      exact ⟨⟨hfirst, hcomma⟩, hrest⟩

/-- Behind a text without an opening brace the pieces come out as their choices. The
induction is on the pieces; an alternative goes to the text. -/
theorem expandBraces_render {pieces : List Piece} (hplain : ∀ piece ∈ pieces, piece.Plain)
    (hfront : '\x7b' ∉ front) :
    expandBraces (front ++ renderPieces pieces) = (choices pieces).map (front ++ ·) := by
  induction pieces generalizing front with
  | nil =>
    have hnone : firstGroup front = none := firstGroup_text hfront
    simp [renderPieces, choices, expandBraces_none hnone]
  | cons piece pieces ih =>
    obtain ⟨hpiece, hmore⟩ := forall_mem_cons.mp hplain
    cases piece with
    | text cs =>
      have hlonger : '\x7b' ∉ front ++ cs := by simp [hfront, hpiece.1]
      have hrest := ih hmore hlonger
      simpa [renderPieces, Piece.render, choices, Function.comp_def] using hrest
    | group alternatives =>
      obtain ⟨hne, hparts⟩ := hpiece
      have hclose : '\x7d' ∉ [','].intercalate alternatives :=
        not_mem_intercalate (by decide) fun cs hcs => (hparts cs hcs).2.1
      have hsplit : ([','].intercalate alternatives).splitOn ',' = alternatives :=
        splitOn_intercalate ',' (fun cs hcs => (hparts cs hcs).2.2) hne
      have hgroup := firstGroup_group hfront hclose (renderPieces pieces)
      have hpattern : front ++ renderPieces (.group alternatives :: pieces) =
          front ++ '\x7b' :: ([','].intercalate alternatives ++ '\x7d' :: renderPieces pieces) := by
        simp [renderPieces, Piece.render]
      rw [hpattern, expandBraces_some hgroup, hsplit, choices, map_flatMap]
      apply flatMap_congr
      intro alternative hmem
      have hlonger : '\x7b' ∉ front ++ alternative := by simp [hfront, (hparts _ hmem).1]
      simpa [Function.comp_def] using ih hmore hlonger

/-- The braces are balanced and not nested; `inside` a group there is one to close. -/
def Flat (inside : Bool) : List Char → Prop
  | [] => inside = false
  | c :: cs =>
    if c = '\x7b' then inside = false ∧ Flat true cs
    else if c = '\x7d' then inside = true ∧ Flat false cs
    else Flat inside cs

theorem pieces_of_flat {cs : List Char} :
    (Flat false cs → ∃ pieces, (∀ piece ∈ pieces, piece.Plain) ∧ renderPieces pieces = cs) ∧
      (Flat true cs → ∃ content pieces, '\x7b' ∉ content ∧ '\x7d' ∉ content ∧
        (∀ piece ∈ pieces, piece.Plain) ∧ cs = content ++ '\x7d' :: renderPieces pieces) := by
  induction cs with
  | nil =>
    refine ⟨fun _ => ⟨[], by simp, rfl⟩, ?_⟩
    intro h
    cases h
  | cons c cs ih =>
    by_cases hopen : c = '\x7b'
    · subst hopen
      refine ⟨?_, ?_⟩
      · intro h
        have hinside : Flat true cs := by simpa [Flat] using h
        obtain ⟨content, pieces, hopen, hclose, hplain, rfl⟩ := ih.2 hinside
        refine ⟨.group (content.splitOn ',') :: pieces, ?_, ?_⟩
        · rw [forall_mem_cons]
          refine ⟨⟨splitOn_ne_nil _ _, ?_⟩, hplain⟩
          intro part hpart
          have hsubset := (infix_of_mem_splitOnP hpart).subset
          refine ⟨fun hmem => hopen (hsubset hmem), fun hmem => hclose (hsubset hmem), ?_⟩
          intro hcomma
          simpa using not_of_mem_splitOnP hpart ',' hcomma
        · simp [renderPieces, Piece.render, intercalate_splitOn]
      · intro h
        simp [Flat] at h
    · by_cases hclose : c = '\x7d'
      · subst hclose
        refine ⟨?_, ?_⟩
        · intro h
          simp [Flat] at h
        · intro h
          obtain ⟨pieces, hplain, rfl⟩ := ih.1 (by simpa [Flat] using h)
          exact ⟨[], pieces, by simp, by simp, hplain, rfl⟩
      · refine ⟨?_, ?_⟩
        · intro h
          obtain ⟨pieces, hplain, rfl⟩ := ih.1 (by simpa [Flat, hopen, hclose] using h)
          refine ⟨.text [c] :: pieces, ?_, rfl⟩
          rw [forall_mem_cons]
          refine ⟨⟨?_, ?_⟩, hplain⟩
          · simpa using Ne.symm hopen
          · simpa using Ne.symm hclose
        · intro h
          obtain ⟨content, pieces, hopen', hclose', hplain, rfl⟩ :=
            ih.2 (by simpa [Flat, hopen, hclose] using h)
          refine ⟨c :: content, pieces, ?_, ?_, hplain, rfl⟩
          · simp [Ne.symm hopen, hopen']
          · simp [Ne.symm hclose, hclose']

/-- For every pattern the recursion ends, as each call has fewer closing braces than
its caller; and a pattern whose groups are balanced and not nested is made of pieces,
and expanded to their choices. -/
theorem expand_braces_choices (pattern : List Char) :
    (∀ front alternatives suffix, firstGroup pattern = some (front, alternatives, suffix) →
      ∀ alternative ∈ alternatives.splitOn ',',
        (front ++ alternative ++ suffix).count '\x7d' < pattern.count '\x7d') ∧
    (Flat false pattern →
      (∃ pieces, (∀ piece ∈ pieces, piece.Plain) ∧ renderPieces pieces = pattern) ∧
      ∀ pieces, (∀ piece ∈ pieces, piece.Plain) → renderPieces pieces = pattern →
        expandBraces pattern = choices pieces) := by
  refine ⟨fun _ _ _ hgroup _ hmem => count_close_lt hgroup hmem, ?_⟩
  intro hflat
  refine ⟨pieces_of_flat.1 hflat, ?_⟩
  rintro pieces hplain rfl
  simpa using expandBraces_render hplain (not_mem_nil (a := '\x7b'))

end DbClinic.Runtime
