import Mathlib.Tactic

/-!
A tree of directories, files and symbolic links, and the resolution of a path in
it. A path is the list of names that the operating system follows from the root;
`.` and `..` are names of it, and a final `.` demands a directory. The number of
links that one resolution follows is bounded. An operation fails only for the
shape of the tree.
-/

namespace DbClinic.LinkTree

open List

/-- The names from the root to an entry of the tree. -/
abbrev Location := List String

inductive Entry (C : Type) where
  | dir
  | file (content : C)
  | link (absolute : Bool) (names : List String)
  deriving DecidableEq

/-- The entry at a location; the root is a directory without an entry. -/
abbrev Tree (C : Type) := Location → Option (Entry C)

inductive Fault where
  | missing (dir : Location) (name : String) (rest : List String)
  | notDirectory
  | isDirectory
  | alreadyExists
  | tooManyLinks
  deriving DecidableEq

/-- A name of an entry. -/
def Normal (c : String) : Prop := c ≠ "." ∧ c ≠ ".."

instance (c : String) : Decidable (Normal c) := inferInstanceAs (Decidable (_ ∧ _))

def Fault.IsMissing : Fault → Prop
  | missing .. => True
  | _ => False

instance : DecidablePred Fault.IsMissing := fun f =>
  match f with
  | .missing .. => isTrue trivial
  | .notDirectory | .isDirectory | .alreadyExists | .tooManyLinks => isFalse id

def Fault.before (more : List String) : Fault → Fault
  | missing dir name rest => missing dir name (rest ++ more)
  | f => f

variable {C : Type}

def IsDir (t : Tree C) (l : Location) : Prop := l = [] ∨ t l = some .dir

def isDirEntry : Option (Entry C) → Bool
  | some .dir => true
  | _ => false

theorem isDirEntry_iff (e : Option (Entry C)) : isDirEntry e = true ↔ e = some .dir := by
  unfold isDirEntry
  split
  · exact iff_of_true rfl rfl
  · rename_i hne
    exact iff_of_false Bool.false_ne_true hne

instance (t : Tree C) (l : Location) : Decidable (IsDir t l) :=
  decidable_of_iff (l = [] ∨ isDirEntry (t l) = true) (or_congr Iff.rfl (isDirEntry_iff (t l)))

def linkBase (absolute : Bool) (here : Location) : Location := if absolute then [] else here

/-- Follow names from a directory, leaving what happens at a link to `jump`. -/
@[grind] def walkWith (t : Tree C) (budget : Nat)
    (jump : Location → List String → Except Fault (Location × Nat)) :
    Location → List String → Except Fault (Location × Nat)
  | here, [] => .ok (here, budget)
  | here, c :: rest =>
    if c = "." then walkWith t budget jump here rest
    else if c = ".." then walkWith t budget jump here.dropLast rest
    else
      match t (here ++ [c]) with
      | none => .error (.missing here c rest)
      | some .dir => walkWith t budget jump (here ++ [c]) rest
      | some (.file _) => if rest = [] then .ok (here ++ [c], budget) else .error .notDirectory
      | some (.link absolute names) => jump (linkBase absolute here) (names ++ rest)

/-- Follow names from a directory and every link on the way; the result has the
number of links that may still be followed. -/
@[grind] def walk (t : Tree C) : Nat → Location → List String → Except Fault (Location × Nat)
  | 0 => walkWith t 0 fun _ _ => .error .tooManyLinks
  | budget + 1 => walkWith t (budget + 1) (walk t budget)

section Walk

variable (t : Tree C) (b : Nat) (here : Location) {c : String} (rest : List String)

@[simp] theorem walk_nil : walk t b here [] = .ok (here, b) := by
  cases b <;> rfl

@[simp] theorem walk_dot : walk t b here ("." :: rest) = walk t b here rest := by
  cases b <;> rfl

@[simp] theorem walk_up : walk t b here (".." :: rest) = walk t b here.dropLast rest := by
  cases b <;> rfl

variable {t here} (hc : Normal c)

include hc

theorem walk_absent (h : t (here ++ [c]) = none) :
    walk t b here (c :: rest) = .error (.missing here c rest) := by
  cases b <;> simp [walk, walkWith, hc.1, hc.2, h]

theorem walk_dir (h : t (here ++ [c]) = some .dir) :
    walk t b here (c :: rest) = walk t b (here ++ [c]) rest := by
  cases b <;> simp [walk, walkWith, hc.1, hc.2, h]

theorem walk_file {content : C} (h : t (here ++ [c]) = some (.file content)) :
    walk t b here (c :: rest) =
      if rest = [] then .ok (here ++ [c], b) else .error .notDirectory := by
  cases b <;> simp [walk, walkWith, hc.1, hc.2, h]

theorem walk_spent {absolute : Bool} {names : List String}
    (h : t (here ++ [c]) = some (.link absolute names)) :
    walk t 0 here (c :: rest) = .error .tooManyLinks := by
  simp [walk, walkWith, hc.1, hc.2, h]

theorem walk_link {absolute : Bool} {names : List String}
    (h : t (here ++ [c]) = some (.link absolute names)) :
    walk t (b + 1) here (c :: rest) = walk t b (linkBase absolute here) (names ++ rest) := by
  simp [walk, walkWith, hc.1, hc.2, h]

end Walk

theorem walk_rec (t : Tree C) {motive : Nat → Location → List String → Prop}
    (nil : ∀ b here, motive b here [])
    (dot : ∀ b here rest, motive b here rest → motive b here ("." :: rest))
    (up : ∀ b here rest, motive b here.dropLast rest → motive b here (".." :: rest))
    (absent : ∀ b here c rest, Normal c → t (here ++ [c]) = none → motive b here (c :: rest))
    (dir : ∀ b here c rest, Normal c → t (here ++ [c]) = some .dir →
      motive b (here ++ [c]) rest → motive b here (c :: rest))
    (file : ∀ b here c rest content, Normal c → t (here ++ [c]) = some (.file content) →
      motive b here (c :: rest))
    (spent : ∀ here c rest absolute names, Normal c →
      t (here ++ [c]) = some (.link absolute names) → motive 0 here (c :: rest))
    (link : ∀ b here c rest absolute names, Normal c →
      t (here ++ [c]) = some (.link absolute names) →
      motive b (linkBase absolute here) (names ++ rest) → motive (b + 1) here (c :: rest))
    (b : Nat) (here : Location) (names : List String) : motive b here names := by
  induction b generalizing here names with
  | zero =>
    induction names generalizing here with
    | nil => exact nil 0 here
    | cons c rest ih =>
      by_cases hdot : c = "."
      · subst hdot
        exact dot 0 here rest (ih here)
      by_cases hup : c = ".."
      · subst hup
        exact up 0 here rest (ih _)
      cases hentry : t (here ++ [c]) with
      | none => exact absent 0 here c rest ⟨hdot, hup⟩ hentry
      | some e =>
        cases e with
        | dir => exact dir 0 here c rest ⟨hdot, hup⟩ hentry (ih _)
        | file content => exact file 0 here c rest content ⟨hdot, hup⟩ hentry
        | link absolute names => exact spent here c rest absolute names ⟨hdot, hup⟩ hentry
  | succ b ihb =>
    induction names generalizing here with
    | nil => exact nil (b + 1) here
    | cons c rest ih =>
      by_cases hdot : c = "."
      · subst hdot
        exact dot (b + 1) here rest (ih here)
      by_cases hup : c = ".."
      · subst hup
        exact up (b + 1) here rest (ih _)
      cases hentry : t (here ++ [c]) with
      | none => exact absent (b + 1) here c rest ⟨hdot, hup⟩ hentry
      | some e =>
        cases e with
        | dir => exact dir (b + 1) here c rest ⟨hdot, hup⟩ hentry (ih _)
        | file content => exact file (b + 1) here c rest content ⟨hdot, hup⟩ hentry
        | link absolute names =>
          exact link b here c rest absolute names ⟨hdot, hup⟩ hentry (ihb _ _)

/-- Every directory on the way to the location is there. -/
def Real (t : Tree C) (l : Location) : Prop := (∀ p, p <+: l → IsDir t p) ∧ ∀ c ∈ l, Normal c

/-- What a path that resolves leads to: a directory, or a file in one. -/
def Arrived (t : Tree C) (l : Location) : Prop :=
  Real t l ∨ ∃ d c content, l = d ++ [c] ∧ Real t d ∧ Normal c ∧ t l = some (.file content)

theorem Real.nil (t : Tree C) : Real t [] := by
  refine ⟨fun p hp => Or.inl (prefix_nil.mp hp), ?_⟩
  simp

variable {t : Tree C} {l here : Location} {b b' : Nat} {names : List String} {c : String}

theorem Real.isDir (h : Real t l) : IsDir t l := h.1 l (prefix_refl l)

theorem Real.snoc (h : Real t l) (hc : Normal c) (hdir : t (l ++ [c]) = some .dir) :
    Real t (l ++ [c]) := by
  constructor
  · intro p hp
    rcases prefix_concat_iff.mp hp with rfl | hp
    · exact Or.inr hdir
    · exact h.1 p hp
  · intro x hx
    rcases mem_append.mp hx with hx | hx
    · exact h.2 x hx
    · rw [mem_singleton.mp hx]
      exact hc

theorem Real.of_prefix {p : Location} (h : Real t l) (hp : p <+: l) : Real t p :=
  ⟨fun q hq => h.1 q (hq.trans hp), fun c hc => h.2 c (hp.subset hc)⟩

theorem Real.dropLast (h : Real t l) : Real t l.dropLast :=
  h.of_prefix (List.dropLast_prefix l)

theorem Real.linkBase (h : Real t l) (absolute : Bool) :
    Real t (linkBase absolute l) := by
  cases absolute with
  | true => exact .nil t
  | false => exact h

theorem Real.mono {t' : Tree C} (hext : ∀ l e, t l = some e → t' l = some e) (h : Real t l) :
    Real t' l := by
  refine ⟨fun p hp => ?_, h.2⟩
  rcases h.1 p hp with hroot | hdir
  · exact Or.inl hroot
  · exact Or.inr (hext _ _ hdir)

theorem not_isDir_of_file {d : Location} {content : C} (h : t (d ++ [c]) = some (.file content)) :
    ¬ IsDir t (d ++ [c]) := by
  rintro (hroot | hdir)
  · simp at hroot
  · simp [h] at hdir

/-- What a resolution says about the tree. -/
def Outcome (t : Tree C) : Except Fault (Location × Nat) → Prop
  | .ok (l, _) => Arrived t l
  | .error (.missing d c _) => Real t d ∧ Normal c ∧ t (d ++ [c]) = none
  | .error _ => True

theorem walk_outcome (t : Tree C) (b : Nat) (here : Location) (names : List String)
    (h : Real t here) : Outcome t (walk t b here names) := by
  induction b, here, names using walk_rec t with
  | nil b here =>
    rw [walk_nil]
    exact Or.inl h
  | dot b here rest ih =>
    rw [walk_dot]
    exact ih h
  | up b here rest ih =>
    rw [walk_up]
    exact ih h.dropLast
  | absent b here c rest hc hentry =>
    rw [walk_absent b rest hc hentry]
    exact ⟨h, hc, hentry⟩
  | dir b here c rest hc hentry ih =>
    rw [walk_dir b rest hc hentry]
    exact ih (h.snoc hc hentry)
  | file b here c rest content hc hentry =>
    rw [walk_file b rest hc hentry]
    split
    · exact Or.inr ⟨here, c, content, rfl, h, hc, hentry⟩
    · trivial
  | spent here c rest absolute names hc hentry =>
    rw [walk_spent rest hc hentry]
    trivial
  | link b here c rest absolute names hc hentry ih =>
    rw [walk_link b rest hc hentry]
    exact ih (h.linkBase absolute)

theorem walk_arrived (h : Real t here) (hwalk : walk t b here names = .ok (l, b')) :
    Arrived t l := by
  have houtcome := walk_outcome t b here names h
  rwa [hwalk] at houtcome

theorem Arrived.real (h : Arrived t l) (hdir : IsDir t l) :
    Real t l := by
  rcases h with hreal | ⟨d, c, content, rfl, -, -, hfile⟩
  · exact hreal
  · exact absurd hdir (not_isDir_of_file hfile)

theorem walk_vacant {d : Location} {rest : List String} (h : Real t here)
    (hwalk : walk t b here names = .error (.missing d c rest)) :
    Real t d ∧ Normal c ∧ t (d ++ [c]) = none := by
  have houtcome := walk_outcome t b here names h
  rwa [hwalk] at houtcome

theorem walk_append_dir (more : List String) (hwalk : walk t b here names = .ok (l, b'))
    (hdir : IsDir t l) :
    walk t b here (names ++ more) = walk t b' l more := by
  induction b, here, names using walk_rec t with
  | nil b here =>
    rw [walk_nil] at hwalk
    cases hwalk
    rfl
  | dot b here rest ih =>
    rw [walk_dot] at hwalk
    rw [cons_append, walk_dot, ih hwalk]
  | up b here rest ih =>
    rw [walk_up] at hwalk
    rw [cons_append, walk_up, ih hwalk]
  | absent b here c rest hc hentry =>
    rw [walk_absent b rest hc hentry] at hwalk
    cases hwalk
  | dir b here c rest hc hentry ih =>
    rw [walk_dir b rest hc hentry] at hwalk
    rw [cons_append, walk_dir b _ hc hentry, ih hwalk]
  | file b here c rest content hc hentry =>
    rw [walk_file b rest hc hentry] at hwalk
    split at hwalk
    · cases hwalk
      exact absurd hdir (not_isDir_of_file hentry)
    · cases hwalk
  | spent here c rest absolute names hc hentry =>
    rw [walk_spent rest hc hentry] at hwalk
    cases hwalk
  | link b here c rest absolute names hc hentry ih =>
    rw [walk_link b rest hc hentry] at hwalk
    rw [cons_append, walk_link b _ hc hentry, ← append_assoc, ih hwalk]

theorem walk_append_file {more : List String} (h : Real t here)
    (hwalk : walk t b here names = .ok (l, b')) (hfile : ¬ IsDir t l) (hmore : more ≠ []) :
    walk t b here (names ++ more) = .error .notDirectory := by
  induction b, here, names using walk_rec t with
  | nil b here =>
    rw [walk_nil] at hwalk
    cases hwalk
    exact absurd h.isDir hfile
  | dot b here rest ih =>
    rw [walk_dot] at hwalk
    rw [cons_append, walk_dot, ih h hwalk]
  | up b here rest ih =>
    rw [walk_up] at hwalk
    rw [cons_append, walk_up, ih h.dropLast hwalk]
  | absent b here c rest hc hentry =>
    rw [walk_absent b rest hc hentry] at hwalk
    cases hwalk
  | dir b here c rest hc hentry ih =>
    rw [walk_dir b rest hc hentry] at hwalk
    rw [cons_append, walk_dir b _ hc hentry, ih (h.snoc hc hentry) hwalk]
  | file b here c rest content hc hentry =>
    rw [cons_append, walk_file b _ hc hentry, if_neg]
    simp [hmore]
  | spent here c rest absolute names hc hentry =>
    rw [walk_spent rest hc hentry] at hwalk
    cases hwalk
  | link b here c rest absolute names hc hentry ih =>
    rw [walk_link b rest hc hentry] at hwalk
    rw [cons_append, walk_link b _ hc hentry, ← append_assoc,
      ih (h.linkBase absolute) hwalk]

theorem walk_append_error {f : Fault} (more : List String)
    (hwalk : walk t b here names = .error f) :
    walk t b here (names ++ more) = .error (f.before more) := by
  induction b, here, names using walk_rec t with
  | nil b here =>
    rw [walk_nil] at hwalk
    cases hwalk
  | dot b here rest ih =>
    rw [walk_dot] at hwalk
    rw [cons_append, walk_dot, ih hwalk]
  | up b here rest ih =>
    rw [walk_up] at hwalk
    rw [cons_append, walk_up, ih hwalk]
  | absent b here c rest hc hentry =>
    rw [walk_absent b rest hc hentry] at hwalk
    cases hwalk
    rw [cons_append, walk_absent b _ hc hentry]
    rfl
  | dir b here c rest hc hentry ih =>
    rw [walk_dir b rest hc hentry] at hwalk
    rw [cons_append, walk_dir b _ hc hentry, ih hwalk]
  | file b here c rest content hc hentry =>
    rw [walk_file b rest hc hentry] at hwalk
    split at hwalk
    · cases hwalk
    · rename_i hrest
      cases hwalk
      rw [cons_append, walk_file b _ hc hentry, if_neg]
      · rfl
      · simp [hrest]
  | spent here c rest absolute names hc hentry =>
    rw [walk_spent rest hc hentry] at hwalk
    cases hwalk
    rw [cons_append, walk_spent _ hc hentry]
    rfl
  | link b here c rest absolute names hc hentry ih =>
    rw [walk_link b rest hc hentry] at hwalk
    rw [cons_append, walk_link b _ hc hentry, ← append_assoc, ih hwalk]

theorem walk_mono {t' : Tree C} (hext : ∀ l e, t l = some e → t' l = some e) {r : Location × Nat}
    (hwalk : walk t b here names = .ok r) : walk t' b here names = .ok r := by
  induction b, here, names using walk_rec t with
  | nil b here =>
    rw [walk_nil] at hwalk ⊢
    exact hwalk
  | dot b here rest ih =>
    rw [walk_dot] at hwalk ⊢
    exact ih hwalk
  | up b here rest ih =>
    rw [walk_up] at hwalk ⊢
    exact ih hwalk
  | absent b here c rest hc hentry =>
    rw [walk_absent b rest hc hentry] at hwalk
    cases hwalk
  | dir b here c rest hc hentry ih =>
    rw [walk_dir b rest hc hentry] at hwalk
    rw [walk_dir b rest hc (hext _ _ hentry)]
    exact ih hwalk
  | file b here c rest content hc hentry =>
    rw [walk_file b rest hc hentry] at hwalk
    rw [walk_file b rest hc (hext _ _ hentry)]
    exact hwalk
  | spent here c rest absolute names hc hentry =>
    rw [walk_spent rest hc hentry] at hwalk
    cases hwalk
  | link b here c rest absolute names hc hentry ih =>
    rw [walk_link b rest hc hentry] at hwalk
    rw [walk_link b rest hc (hext _ _ hentry)]
    exact ih hwalk

theorem walk_of_real (b : Nat) (h : Real t (here ++ l)) :
    walk t b here l = .ok (here ++ l, b) := by
  induction l generalizing here with
  | nil => simp
  | cons c rest ih =>
    have hc : Normal c := h.2 c (by simp)
    have hpre : here ++ [c] <+: here ++ c :: rest := ⟨rest, by simp⟩
    have hdir : t (here ++ [c]) = some .dir := by
      rcases h.1 _ hpre with hroot | hdir
      · simp at hroot
      · exact hdir
    rw [walk_dir b rest hc hdir, ih (by simpa using h)]
    simp

theorem walk_of_arrived (b : Nat) (h : Arrived t l) :
    walk t b [] l = .ok (l, b) := by
  rcases h with hreal | ⟨d, c, content, rfl, hreal, hc, hfile⟩
  · exact walk_of_real b hreal
  · have hwalk : walk t b [] d = .ok (d, b) := walk_of_real b hreal
    rw [walk_append_dir [c] hwalk hreal.isDir]
    rw [walk_file b [] hc hfile, if_pos rfl]

end DbClinic.LinkTree
