import Mathlib.Data.List.Basic

/-!
Texts joined by a separator, and what they can be read as. A text that holds the
separator itself becomes several pieces, so that the joined text is the row of
all pieces, and a reader has to find where one text ends. The second half asks
when a row can be cut in three parts in one way only, where no part is empty and
the middle one is a blank piece or has a marked one.
-/

namespace DbClinic.Cuts

open List

section Pieces

variable {α : Type*} [BEq α] [LawfulBEq α] {sep : α}

theorem splitOn_joined {parts : List (List α)} (h : parts ≠ []) :
    ([sep].intercalate parts).splitOn sep = parts.flatMap (List.splitOn sep) := by
  induction parts with
  | nil => exact absurd rfl h
  | cons part parts ih =>
    cases parts with
    | nil => simp
    | cons next parts =>
      rw [intercalate_cons_cons, append_assoc, singleton_append,
        splitOn_append_cons_self, ih (cons_ne_nil _ _)]
      rfl

theorem joined_inj_iff {parts others : List (List α)} (h : parts ≠ []) (h' : others ≠ []) :
    [sep].intercalate parts = [sep].intercalate others ↔
      parts.flatMap (List.splitOn sep) = others.flatMap (List.splitOn sep) := by
  rw [← splitOn_joined h, ← splitOn_joined h']
  constructor
  · exact congrArg (List.splitOn sep)
  · intro heq
    have hjoined := congrArg (List.intercalate [sep]) heq
    rwa [intercalate_splitOn, intercalate_splitOn] at hjoined

theorem sep_notMem_of_mem_splitOn {xs piece : List α} (h : piece ∈ xs.splitOn sep) :
    sep ∉ piece := by
  by_cases hsep : sep ∈ xs
  · -- the induction is on what follows the first separator
    obtain ⟨first, rest, hxs, hfirst⟩ := eq_append_cons_of_mem hsep
    rw [hxs, splitOn_append_cons_self_of_not_mem hfirst] at h
    rcases mem_cons.mp h with rfl | hrest
    · exact hfirst
    · exact sep_notMem_of_mem_splitOn hrest
  · rw [splitOn_eq_singleton hsep, mem_singleton] at h
    rwa [h]
  termination_by xs.length
  decreasing_by
    rw [hxs, length_append, length_cons]
    omega

theorem splitOn_pieces {pieces : List (List α)} (hne : pieces ≠ [])
    (h : ∀ piece ∈ pieces, sep ∉ piece) : ([sep].intercalate pieces).splitOn sep = pieces :=
  splitOn_intercalate sep h hne

theorem splitOn_inj {xs ys : List α} (h : xs.splitOn sep = ys.splitOn sep) : xs = ys := by
  have hjoined := congrArg (List.intercalate [sep]) h
  rwa [intercalate_splitOn, intercalate_splitOn] at hjoined

theorem length_splitOn_eq_one_iff {xs : List α} : (xs.splitOn sep).length = 1 ↔ sep ∉ xs := by
  constructor
  · intro hone
    obtain ⟨piece, hpiece⟩ := length_eq_one_iff.mp hone
    have hxs : [sep].intercalate (xs.splitOn sep) = xs := intercalate_splitOn sep
    rw [hpiece, intercalate_singleton] at hxs
    rw [← hxs]
    exact sep_notMem_of_mem_splitOn (hpiece ▸ mem_singleton_self piece)
  · intro hnot
    rw [splitOn_eq_singleton hnot]
    rfl

theorem exists_piece_of_mem {xs : List α} {x : α} (h : x ∈ xs) (hx : x ≠ sep) :
    ∃ piece ∈ xs.splitOn sep, x ∈ piece := by
  have hxs : [sep].intercalate (xs.splitOn sep) = xs := intercalate_splitOn sep
  rw [← hxs] at h
  clear hxs
  generalize xs.splitOn sep = pieces at h
  induction pieces with
  | nil => simp at h
  | cons piece pieces ih =>
    cases pieces with
    | nil =>
      rw [intercalate_singleton] at h
      exact ⟨piece, mem_cons_self, h⟩
    | cons next pieces =>
      rw [intercalate_cons_cons, append_assoc, mem_append, mem_append,
        mem_singleton] at h
      rcases h with h | rfl | h
      · exact ⟨piece, mem_cons_self, h⟩
      · exact absurd rfl hx
      · obtain ⟨later, hlater, hmem⟩ := ih h
        exact ⟨later, mem_cons_of_mem _ hlater, hmem⟩

theorem mem_of_mem_piece {xs piece : List α} {x : α} (hpiece : piece ∈ xs.splitOn sep)
    (hx : x ∈ piece) : x ∈ xs := by
  have hxs : [sep].intercalate (xs.splitOn sep) = xs := intercalate_splitOn sep
  rw [← hxs]
  clear hxs
  generalize xs.splitOn sep = pieces at hpiece
  induction pieces with
  | nil => cases hpiece
  | cons first pieces ih =>
    cases pieces with
    | nil =>
      rw [mem_singleton] at hpiece
      subst hpiece
      rwa [intercalate_singleton]
    | cons next pieces =>
      rw [intercalate_cons_cons, mem_append, mem_append]
      rcases mem_cons.mp hpiece with rfl | hlater
      · exact .inl (.inl hx)
      · exact .inr (ih hlater)

end Pieces

section Cuts

variable {α : Type*} (blank : α) (Marked : α → Prop)

def Middle (part : List α) : Prop := part = [blank] ∨ ∃ x ∈ part, Marked x

/-- The row of three parts has no other cut. -/
def OneCut (front middle back : List α) : Prop :=
  ∀ front' middle' back', front' ≠ [] → back' ≠ [] → Middle blank Marked middle' →
    front' ++ middle' ++ back' = front ++ middle ++ back → front' = front ∧ middle' = middle

/-- Each part is one piece, or the middle one is blank and no other piece within
the row can be the middle. -/
def Plain (front middle back : List α) : Prop :=
  front.length = 1 ∧ middle.length = 1 ∧ back.length = 1 ∨
    middle = [blank] ∧ ∀ x ∈ front.tail ++ back.dropLast, x ≠ blank ∧ ¬Marked x

variable {blank Marked} {front middle back : List α}

theorem Middle.ne_nil (h : Middle blank Marked middle) : middle ≠ [] := by
  rintro rfl
  rcases h with hblank | ⟨x, hx, -⟩
  · cases hblank
  · cases hx

theorem middle_singleton {x : α} (h : ¬(x ≠ blank ∧ ¬Marked x)) : Middle blank Marked [x] := by
  by_cases hx : x = blank
  · exact .inl (by rw [hx])
  · exact .inr ⟨x, mem_singleton_self x, not_not.mp fun hnot => h ⟨hx, hnot⟩⟩

theorem oneCut_of_singles (hfront : front.length = 1) (hmiddle : middle.length = 1)
    (hback : back.length = 1) : OneCut blank Marked front middle back := by
  intro front' middle' back' hfront' hback' hmiddle' heq
  have h₁ := length_pos_iff.mpr hfront'
  have h₂ := length_pos_iff.mpr hmiddle'.ne_nil
  have h₃ := length_pos_iff.mpr hback'
  have hlen := congrArg List.length heq
  simp only [length_append] at hlen
  obtain ⟨hparts, -⟩ := append_inj heq (by simp only [length_append]; omega)
  exact append_inj hparts (by omega)

theorem oneCut_of_blank (hblank : ¬Marked blank) (hfront : front ≠ []) (hback : back ≠ [])
    (h : ∀ x ∈ front.tail ++ back.dropLast, x ≠ blank ∧ ¬Marked x) :
    OneCut blank Marked front [blank] back := by
  intro front' middle' back' hfront' hback' hmiddle' heq
  obtain ⟨first, fs, rfl⟩ := exists_cons_of_ne_nil hfront
  obtain ⟨first', fs', rfl⟩ := exists_cons_of_ne_nil hfront'
  obtain ⟨bs, last, rfl⟩ := (eq_nil_or_concat back).resolve_left hback
  obtain ⟨bs', last', rfl⟩ := (eq_nil_or_concat back').resolve_left hback'
  simp only [concat_eq_append] at heq h
  have hrow : fs' ++ middle' ++ bs' ++ [last'] = fs ++ blank :: bs ++ [last] := by
    have htail := (List.cons.inj heq).2
    simpa using htail
  have hwithin : fs' ++ middle' ++ bs' = fs ++ blank :: bs := by
    have hdrop := congrArg List.dropLast hrow
    rwa [dropLast_concat, dropLast_concat] at hdrop
  have hfirst : first' = first := (List.cons.inj heq).1
  have hmarked (x : α) (hx : x ∈ fs' ++ middle' ++ bs') : ¬Marked x := by
    rw [hwithin] at hx
    rcases mem_append.mp hx with hx | hx
    · exact (h x (by simp [hx])).2
    · rcases mem_cons.mp hx with rfl | hx
      · exact hblank
      · exact (h x (by simp [hx])).2
  have hmiddle : middle' = [blank] := by
    refine hmiddle'.resolve_right ?_
    rintro ⟨x, hx, hmark⟩
    exact hmarked x (by simp [hx]) hmark
  subst hmiddle
  rw [append_assoc, singleton_append] at hwithin
  have hfs : blank ∉ fs := fun hmem => (h blank (by simp [hmem])).1 rfl
  have hbs : blank ∉ bs := fun hmem => (h blank (by simp [hmem])).1 rfl
  have hparts := (append_cons_inj_of_notMem hfs hbs).mp hwithin.symm
  exact ⟨by rw [hfirst, hparts.1], rfl⟩

theorem append_of_mem_dropLast {x : α} {xs : List α} (h : x ∈ xs.dropLast) :
    ∃ a b, b ≠ [] ∧ xs = a ++ x :: b := by
  rcases eq_nil_or_concat xs with rfl | ⟨ys, last, rfl⟩
  · cases h
  · simp only [concat_eq_append] at h ⊢
    rw [dropLast_concat] at h
    obtain ⟨a, b, rfl⟩ := append_of_mem h
    exact ⟨a, b ++ [last], by simp, by simp⟩

theorem mem_drop_two {x : α} {first second rest : List α} (hfirst : first ≠ [])
    (hsecond : second ≠ []) (hrest : rest ≠ []) :
    x ∈ ((first ++ second ++ x :: rest).drop 2).dropLast := by
  obtain ⟨a, first, rfl⟩ := exists_cons_of_ne_nil hfirst
  obtain ⟨b, more, hmore⟩ := exists_cons_of_ne_nil
    (show first ++ second ≠ [] by simp [hsecond])
  have hdrop : (a :: first ++ second ++ x :: rest).drop 2 = more ++ x :: rest := by
    rw [cons_append, hmore]
    rfl
  rw [hdrop, dropLast_append_of_ne_nil (cons_ne_nil _ _),
    dropLast_cons_of_ne_nil hrest]
  simp

theorem OneCut.blank_once (h : OneCut blank Marked front middle back) (hmiddle : middle ≠ [])
    {x : α} (hx : x ∈ front.tail ++ back.dropLast) : x ≠ blank ∧ ¬Marked x := by
  by_contra hnot
  have hother := middle_singleton hnot
  rcases mem_append.mp hx with hx | hx
  · cases front with
    | nil => cases hx
    | cons first fs =>
      obtain ⟨a, b, rfl⟩ := append_of_mem hx
      have hcut := h (first :: a) [x] (b ++ middle ++ back) (cons_ne_nil _ _)
        (by simp [hmiddle]) hother (by simp)
      have hlen := congrArg List.length hcut.1
      simp at hlen
  · obtain ⟨a, b, hb, rfl⟩ := append_of_mem_dropLast hx
    have hcut := h (front ++ middle ++ a) [x] b (by simp [hmiddle]) hb hother (by simp)
    have hlen := congrArg List.length hcut.1
    have hpos := length_pos_iff.mpr hmiddle
    simp only [length_append] at hlen
    omega

theorem OneCut.singles (h : OneCut blank Marked front middle back) (hfront : front ≠ [])
    (hback : back ≠ []) {x : α} (hx : x ∈ middle) (hmark : Marked x) :
    front.length = 1 ∧ middle.length = 1 ∧ back.length = 1 := by
  have hpos := length_pos_iff.mpr hfront
  have hposBack := length_pos_iff.mpr hback
  refine ⟨?_, ?_, ?_⟩
  · by_contra hlong
    obtain ⟨fs, last, rfl⟩ := (eq_nil_or_concat front).resolve_left hfront
    simp only [concat_eq_append] at h hlong
    have hfs : fs ≠ [] := by
      rintro rfl
      exact hlong rfl
    have hcut := h fs (last :: middle) back hfs hback
      (.inr ⟨x, mem_cons_of_mem _ hx, hmark⟩) (by simp)
    have hlen := congrArg List.length hcut.1
    simp at hlen
  · obtain ⟨a, b, rfl⟩ := append_of_mem hx
    by_cases ha : a = []
    · subst ha
      have hcut := h front [x] (b ++ back) hfront (by simp [hback])
        (.inr ⟨x, mem_singleton_self x, hmark⟩) (by simp)
      rw [← hcut.2]
      rfl
    · have hcut := h (front ++ a) (x :: b) back (by simp [hfront]) hback
        (.inr ⟨x, mem_cons_self, hmark⟩) (by simp)
      exact absurd (append_right_eq_self.mp hcut.1) ha
  · by_contra hlong
    obtain ⟨first, bs, rfl⟩ := exists_cons_of_ne_nil hback
    have hbs : bs ≠ [] := by
      rintro rfl
      exact hlong rfl
    have hcut := h front (middle ++ [first]) bs hfront hbs
      (.inr ⟨x, mem_append_left _ hx, hmark⟩) (by simp)
    have hlen := congrArg List.length hcut.2
    simp at hlen

theorem OneCut.found {x y : α} (h : OneCut blank Marked front middle [x])
    {front' middle' first second more : List α} (hfront : front' ≠ [])
    (hmiddle : Middle blank Marked middle') (hfirst : first ≠ []) (hsecond : second ≠ [])
    (heq : front' ++ middle' ++ (first ++ second ++ more) = front ++ middle ++ [x, y]) :
    front' = front ∧ middle' = middle ∧ first = [x] ∧ second = [y] ∧ more = [] := by
  have hfirstPos := length_pos_iff.mpr hfirst
  have hsecondPos := length_pos_iff.mpr hsecond
  have hback : (first ++ second ++ more).dropLast ≠ [] := by
    apply ne_nil_of_length_pos
    simp only [length_dropLast, length_append]
    omega
  have hdrop : front' ++ middle' ++ (first ++ second ++ more).dropLast =
      front ++ middle ++ [x] := by
    have hlast := congrArg List.dropLast heq
    rwa [dropLast_append_of_ne_nil (by simp [hfirst]),
      dropLast_append_of_ne_nil (cons_ne_nil _ _)] at hlast
  obtain ⟨rfl, rfl⟩ := h _ _ _ hfront hback hmiddle hdrop
  have hparts := append_cancel_left heq
  have hlen := congrArg List.length hparts
  simp only [length_append, length_cons, length_nil] at hlen
  have hmore : more = [] := eq_nil_of_length_eq_zero (by omega)
  subst hmore
  rw [append_nil] at hparts
  obtain ⟨h₁, h₂⟩ := append_inj (hparts.trans (show [x, y] = [x] ++ [y] from rfl))
    (by simp only [length_singleton]; omega)
  exact ⟨rfl, rfl, h₁, h₂, rfl⟩

theorem OneCut.signed {Sign : α → Prop} {x y sign : α} {rest : List α}
    (h : OneCut blank Marked front middle [x]) (hrest : ∀ z ∈ rest.dropLast, ¬Sign z)
    {front' middle' first second rest' : List α} {sign' : α} (hfront : front' ≠ [])
    (hmiddle : Middle blank Marked middle') (hfirst : first ≠ []) (hsecond : second ≠ [])
    (hsign : Sign sign') (hrest' : rest' ≠ [])
    (heq : front' ++ middle' ++ (first ++ second) ++ sign' :: rest' =
      front ++ middle ++ [x, y] ++ sign :: rest) :
    front' = front ∧ middle' = middle ∧ first = [x] ∧ second = [y] ∧ sign' = sign ∧
      rest' = rest := by
  rcases append_eq_append_iff.mp heq with ⟨more, hparts, hbehind⟩ | ⟨more, hparts, hbehind⟩
  · obtain ⟨h₁, h₂, h₃, h₄, rfl⟩ := h.found hfront hmiddle hfirst hsecond
      ((append_assoc _ _ more).symm.trans hparts.symm)
    obtain ⟨h₅, h₆⟩ := List.cons.inj hbehind
    exact ⟨h₁, h₂, h₃, h₄, h₅, h₆⟩
  · cases more with
    | nil =>
      rw [append_nil] at hparts
      obtain ⟨h₁, h₂, h₃, h₄, -⟩ := h.found hfront hmiddle hfirst hsecond
        (by rw [append_nil]; exact hparts)
      obtain ⟨h₅, h₆⟩ := List.cons.inj hbehind
      exact ⟨h₁, h₂, h₃, h₄, h₅.symm, h₆.symm⟩
    | cons next more =>
      refine absurd hsign (hrest sign' ?_)
      have hlater : rest = more ++ sign' :: rest' := (List.cons.inj hbehind).2
      rw [hlater, dropLast_append_of_ne_nil (cons_ne_nil _ _),
        dropLast_cons_of_ne_nil hrest']
      simp

theorem oneCut_iff (hblank : ¬Marked blank) (hfront : front ≠ []) (hback : back ≠ [])
    (hmiddle : Middle blank Marked middle) :
    OneCut blank Marked front middle back ↔ Plain blank Marked front middle back := by
  constructor
  · intro h
    rcases hmiddle with rfl | ⟨x, hx, hmark⟩
    · exact .inr ⟨rfl, fun x hx => h.blank_once (cons_ne_nil _ _) hx⟩
    · exact .inl (h.singles hfront hback hx hmark)
  · rintro (⟨h₁, h₂, h₃⟩ | ⟨rfl, h⟩)
    · exact oneCut_of_singles h₁ h₂ h₃
    · exact oneCut_of_blank hblank hfront hback h

end Cuts

end DbClinic.Cuts
