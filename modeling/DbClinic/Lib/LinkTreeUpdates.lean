import DbClinic.Lib.LinkTree

/-!
Making directories and files in a tree with links. `createDirAll` tries the whole
path first and goes back to shorter ones, as the standard library does; `advance`
goes forward and makes what is missing. The two agree.
-/

namespace DbClinic.LinkTree

open List

variable {C : Type}

/-- `mkdir`: the last name is not followed. -/
def mkdir (t : Tree C) (budget : Nat) (above : List String) (name : String) :
    Except Fault (Tree C) :=
  match walk t budget [] above with
  | .error f => .error f
  | .ok (d, _) =>
    if ¬ IsDir t d then .error .notDirectory
    else if Normal name ∧ t (d ++ [name]) = none then
      .ok (Function.update t (d ++ [name]) (some .dir))
    else .error .alreadyExists

def LeadsToDir (t : Tree C) (budget : Nat) (names : List String) : Prop :=
  match walk t budget [] names with
  | .ok (l, _) => IsDir t l
  | .error _ => False

instance (t : Tree C) (budget : Nat) (names : List String) :
    Decidable (LeadsToDir t budget names) := by
  unfold LeadsToDir
  split <;> infer_instance

/-- Make a directory, unless the path leads to one already. -/
def mkdirUnlessDir (t : Tree C) (budget : Nat) (above : List String) (name : String) :
    Except Fault Unit × Tree C :=
  match mkdir t budget above name with
  | .ok t' => (.ok (), t')
  | .error f => if LeadsToDir t budget (above ++ [name]) then (.ok (), t) else (.error f, t)

/-- `fs::create_dir_all`; the deepest name comes first. -/
def createDirAll (t : Tree C) (budget : Nat) : List String → Except Fault Unit × Tree C
  | [] => (.ok (), t)
  | name :: above =>
    match mkdir t budget above.reverse name with
    | .ok t' => (.ok (), t')
    | .error f =>
      if f.IsMissing then
        match createDirAll t budget above with
        | (.error f, t') => (.error f, t')
        | (.ok _, t') => mkdirUnlessDir t' budget above.reverse name
      else if LeadsToDir t budget (above.reverse ++ [name]) then (.ok (), t)
      else (.error f, t)

/-- A path on which missing names become directories: the tree after it, the
directories made, and where it got to. -/
structure Advance (C : Type) where
  tree : Tree C
  made : List Location
  reached : Except Fault (Location × Nat)

namespace Advance

def step (a : Advance C) (c : String) : Advance C :=
  match a.reached with
  | .error _ => a
  | .ok (here, b) =>
    if Normal c ∧ a.tree (here ++ [c]) = none then
      ⟨Function.update a.tree (here ++ [c]) (some .dir), a.made ++ [here ++ [c]],
        .ok (here ++ [c], b)⟩
    else
      match walk a.tree b here [c] with
      | .error f => ⟨a.tree, a.made, .error f⟩
      | .ok (l, b') =>
        if IsDir a.tree l then ⟨a.tree, a.made, .ok (l, b')⟩
        else ⟨a.tree, a.made, .error .notDirectory⟩

end Advance

def advance (t : Tree C) (budget : Nat) (names : List String) : Advance C :=
  names.foldl Advance.step ⟨t, [], .ok ([], budget)⟩

section Steps

@[simp] theorem advance_nil (t : Tree C) (budget : Nat) :
    advance t budget [] = ⟨t, [], .ok ([], budget)⟩ := rfl

theorem advance_snoc (t : Tree C) (budget : Nat) (names : List String) (c : String) :
    advance t budget (names ++ [c]) = (advance t budget names).step c := by
  unfold advance
  rw [foldl_append]
  rfl

variable {a : Advance C} {c : String}

theorem step_failed {f : Fault} (h : a.reached = .error f) : a.step c = a := by
  unfold Advance.step
  rw [h]

variable {here : Location} {b : Nat}

theorem step_made (h : a.reached = .ok (here, b)) (hc : Normal c)
    (hnone : a.tree (here ++ [c]) = none) :
    a.step c = ⟨Function.update a.tree (here ++ [c]) (some .dir), a.made ++ [here ++ [c]],
      .ok (here ++ [c], b)⟩ := by
  unfold Advance.step
  rw [h]
  exact if_pos ⟨hc, hnone⟩

theorem step_entered {l : Location} {b' : Nat} (h : a.reached = .ok (here, b))
    (hwalk : walk a.tree b here [c] = .ok (l, b')) (hdir : IsDir a.tree l) :
    a.step c = ⟨a.tree, a.made, .ok (l, b')⟩ := by
  have hpresent : ¬ (Normal c ∧ a.tree (here ++ [c]) = none) := by
    rintro ⟨hc, hnone⟩
    rw [walk_absent b [] hc hnone] at hwalk
    cases hwalk
  unfold Advance.step
  simp only [h, if_neg hpresent, hwalk, if_pos hdir]

theorem step_blocked {l : Location} {b' : Nat} (h : a.reached = .ok (here, b))
    (hwalk : walk a.tree b here [c] = .ok (l, b')) (hfile : ¬ IsDir a.tree l) :
    a.step c = ⟨a.tree, a.made, .error .notDirectory⟩ := by
  have hpresent : ¬ (Normal c ∧ a.tree (here ++ [c]) = none) := by
    rintro ⟨hc, hnone⟩
    rw [walk_absent b [] hc hnone] at hwalk
    cases hwalk
  unfold Advance.step
  simp only [h, if_neg hpresent, hwalk, if_neg hfile]

theorem step_fault {f : Fault} (h : a.reached = .ok (here, b))
    (hpresent : ¬ (Normal c ∧ a.tree (here ++ [c]) = none))
    (hwalk : walk a.tree b here [c] = .error f) :
    a.step c = ⟨a.tree, a.made, .error f⟩ := by
  unfold Advance.step
  simp only [h, if_neg hpresent, hwalk]

theorem step_cases (a : Advance C) (c : String) :
    (∃ f, a.reached = .error f ∧ a.step c = a) ∨
    (∃ here b, a.reached = .ok (here, b) ∧ Normal c ∧ a.tree (here ++ [c]) = none ∧
      a.step c = ⟨Function.update a.tree (here ++ [c]) (some .dir), a.made ++ [here ++ [c]],
        .ok (here ++ [c], b)⟩) ∨
    (∃ here b l b', a.reached = .ok (here, b) ∧ walk a.tree b here [c] = .ok (l, b') ∧
      IsDir a.tree l ∧ a.step c = ⟨a.tree, a.made, .ok (l, b')⟩) ∨
    (∃ f, a.step c = ⟨a.tree, a.made, .error f⟩) := by
  cases hreached : a.reached with
  | error f => exact Or.inl ⟨f, rfl, step_failed hreached⟩
  | ok r =>
    obtain ⟨here, b⟩ := r
    by_cases hvacant : Normal c ∧ a.tree (here ++ [c]) = none
    · exact Or.inr (Or.inl ⟨here, b, rfl, hvacant.1, hvacant.2,
        step_made hreached hvacant.1 hvacant.2⟩)
    · cases hwalk : walk a.tree b here [c] with
      | error f => exact Or.inr (Or.inr (Or.inr ⟨f, step_fault hreached hvacant hwalk⟩))
      | ok r =>
        obtain ⟨l, b'⟩ := r
        by_cases hdir : IsDir a.tree l
        · exact Or.inr (Or.inr (Or.inl ⟨here, b, l, b', rfl, hwalk, hdir,
            step_entered hreached hwalk hdir⟩))
        · exact Or.inr (Or.inr (Or.inr ⟨_, step_blocked hreached hwalk hdir⟩))

end Steps

structure Advance.Sound (t : Tree C) (budget : Nat) (names : List String) (a : Advance C) :
    Prop where
  tree_eq : ∀ l, a.tree l = if l ∈ a.made then some .dir else t l
  vacant : ∀ l ∈ a.made, t l = none
  reached : ∀ here b, a.reached = .ok (here, b) →
    Real a.tree here ∧ walk a.tree budget [] names = .ok (here, b)

variable {t : Tree C} {budget b : Nat} {l : Location} {names : List String}

theorem extends_update (hnone : t l = none) (e : Entry C) (l' : Location) (e' : Entry C)
    (he : t l' = some e') :
    Function.update t l (some e) l' = some e' := by
  rw [Function.update_of_ne]
  · exact he
  · rintro rfl
    rw [hnone] at he
    cases he

theorem Advance.Sound.step {a : Advance C} (h : a.Sound t budget names) (c : String) :
    (a.step c).Sound t budget (names ++ [c]) := by
  obtain ⟨f, hreached, heq⟩ | ⟨here, b, hreached, hc, hnone, heq⟩ |
    ⟨here, b, l, b', hreached, hwalk, hdir, heq⟩ | ⟨f, heq⟩ := step_cases a c
  · rw [heq]
    refine ⟨h.tree_eq, h.vacant, fun here b hok => ?_⟩
    rw [hreached] at hok
    cases hok
  · obtain ⟨hreal, hnames⟩ := h.reached here b hreached
    have hext := extends_update hnone Entry.dir
    rw [heq]
    refine ⟨fun l => ?_, fun l hl => ?_, fun here' b' hok => ?_⟩
    · simp only [Function.update_apply, mem_append, mem_singleton, h.tree_eq l]
      by_cases hl : l = here ++ [c]
      · simp [hl]
      · simp [hl]
    · rcases mem_append.mp hl with hl | hl
      · exact h.vacant l hl
      · rw [mem_singleton.mp hl]
        have htree := h.tree_eq (here ++ [c])
        rw [hnone] at htree
        split at htree
        · cases htree
        · exact htree.symm
    · cases hok
      have hentry : Function.update a.tree (here ++ [c]) (some .dir) (here ++ [c]) =
          some (Entry.dir : Entry C) := Function.update_self ..
      have hreal' := Real.mono hext hreal
      refine ⟨hreal'.snoc hc hentry, ?_⟩
      rw [walk_append_dir [c] (walk_mono hext hnames) hreal'.isDir, walk_dir b [] hc hentry, walk_nil]
  · obtain ⟨hreal, hnames⟩ := h.reached here b hreached
    rw [heq]
    refine ⟨h.tree_eq, h.vacant, fun here' b'' hok => ?_⟩
    cases hok
    refine ⟨(walk_arrived hreal hwalk).real hdir, ?_⟩
    rw [walk_append_dir [c] hnames hreal.isDir]
    exact hwalk
  · rw [heq]
    refine ⟨h.tree_eq, h.vacant, fun here b hok => ?_⟩
    cases hok

theorem advance_sound (t : Tree C) (budget : Nat) (names : List String) :
    (advance t budget names).Sound t budget names := by
  induction names using List.reverseRecOn with
  | nil =>
    refine ⟨fun l => by simp, by simp, fun here b hok => ?_⟩
    cases hok
    exact ⟨.nil t, walk_nil t budget []⟩
  | append_singleton names c ih =>
    rw [advance_snoc]
    exact ih.step c

/-! An advance along a path that resolves, and along one that fails for another
reason than a missing name, makes nothing. -/

theorem advance_of_dir (hwalk : walk t budget [] names = .ok (l, b)) (hdir : IsDir t l) :
    advance t budget names = ⟨t, [], .ok (l, b)⟩ := by
  induction names using List.reverseRecOn generalizing l b with
  | nil =>
    rw [walk_nil] at hwalk
    cases hwalk
    rfl
  | append_singleton names c ih =>
    rw [advance_snoc]
    cases hbefore : walk t budget [] names with
    | error f =>
      rw [walk_append_error [c] hbefore] at hwalk
      cases hwalk
    | ok r =>
      obtain ⟨d, b₁⟩ := r
      by_cases hd : IsDir t d
      · rw [walk_append_dir [c] hbefore hd] at hwalk
        rw [ih hbefore hd]
        exact step_entered rfl hwalk hdir
      · rw [walk_append_file (.nil t) hbefore hd (by simp)] at hwalk
        cases hwalk

theorem advance_of_file (hwalk : walk t budget [] names = .ok (l, b)) (hfile : ¬ IsDir t l) :
    advance t budget names = ⟨t, [], .error .notDirectory⟩ := by
  induction names using List.reverseRecOn with
  | nil =>
    rw [walk_nil] at hwalk
    cases hwalk
    exact absurd (Or.inl rfl) hfile
  | append_singleton names c ih =>
    rw [advance_snoc]
    cases hbefore : walk t budget [] names with
    | error f =>
      rw [walk_append_error [c] hbefore] at hwalk
      cases hwalk
    | ok r =>
      obtain ⟨d, b₁⟩ := r
      by_cases hd : IsDir t d
      · rw [walk_append_dir [c] hbefore hd] at hwalk
        rw [advance_of_dir hbefore hd]
        exact step_blocked rfl hwalk hfile
      · rw [walk_append_file (.nil t) hbefore hd (by simp)] at hwalk
        cases hwalk

theorem isMissing_before (f : Fault) (more : List String) :
    (f.before more).IsMissing ↔ f.IsMissing := by
  cases f <;> rfl

theorem advance_of_fault {f : Fault} (hwalk : walk t budget [] names = .error f)
    (hf : ¬ f.IsMissing) :
    ∃ g, advance t budget names = ⟨t, [], .error g⟩ := by
  induction names using List.reverseRecOn generalizing f with
  | nil =>
    rw [walk_nil] at hwalk
    cases hwalk
  | append_singleton names c ih =>
    rw [advance_snoc]
    cases hbefore : walk t budget [] names with
    | error g =>
      rw [walk_append_error [c] hbefore] at hwalk
      cases hwalk
      obtain ⟨g', hg⟩ := ih hbefore (by rwa [isMissing_before] at hf)
      exact ⟨g', by rw [hg]; exact step_failed rfl⟩
    | ok r =>
      obtain ⟨d, b₁⟩ := r
      by_cases hd : IsDir t d
      · rw [walk_append_dir [c] hbefore hd] at hwalk
        rw [advance_of_dir hbefore hd]
        refine ⟨f, step_fault rfl ?_ hwalk⟩
        rintro ⟨hc, hnone⟩
        rw [walk_absent b₁ [] hc hnone] at hwalk
        cases hwalk
        exact hf trivial
      · rw [advance_of_file hbefore hd]
        exact ⟨_, step_failed rfl⟩

section MakeDirectories

variable {t : Tree C} {budget b : Nat} {above : List String} {name : String} {d : Location}

theorem leadsToDir_of_ok (hwalk : walk t budget [] names = .ok (l, b)) :
    LeadsToDir t budget names ↔ IsDir t l := by
  unfold LeadsToDir
  rw [hwalk]

variable {f : Fault} {a : Advance C}

theorem not_leadsToDir (hwalk : walk t budget [] names = .error f) :
    ¬ LeadsToDir t budget names := by
  unfold LeadsToDir
  rw [hwalk]
  exact id

theorem mkdir_of_fault (hwalk : walk t budget [] above = .error f) :
    mkdir t budget above name = .error f := by
  unfold mkdir
  rw [hwalk]

theorem mkdir_in_file (hwalk : walk t budget [] above = .ok (l, b)) (hfile : ¬ IsDir t l) :
    mkdir t budget above name = .error .notDirectory := by
  unfold mkdir
  rw [hwalk]
  exact if_pos hfile

theorem mkdir_vacant (hwalk : walk t budget [] above = .ok (d, b)) (hdir : IsDir t d)
    (hvacant : Normal name ∧ t (d ++ [name]) = none) :
    mkdir t budget above name = .ok (Function.update t (d ++ [name]) (some .dir)) := by
  unfold mkdir
  simp only [hwalk, if_neg (not_not.mpr hdir), if_pos hvacant]

theorem mkdir_present (hwalk : walk t budget [] above = .ok (d, b)) (hdir : IsDir t d)
    (hpresent : ¬ (Normal name ∧ t (d ++ [name]) = none)) :
    mkdir t budget above name = .error .alreadyExists := by
  unfold mkdir
  simp only [hwalk, if_neg (not_not.mpr hdir), if_neg hpresent]

/-- The directories were made as far as the advance got. -/
def Agrees (a : Advance C) (r : Except Fault Unit × Tree C) : Prop :=
  r.2 = a.tree ∧ ((∃ f, a.reached = .error f) ↔ ∃ f, r.1 = .error f)

theorem agrees_ok {r : Location × Nat} (h : a.reached = .ok r) :
    Agrees a (.ok (), a.tree) := by
  refine ⟨rfl, ?_⟩
  simp [h]

theorem agrees_error (g : Fault) (h : a.reached = .error f) :
    Agrees a (.error g, a.tree) := by
  refine ⟨rfl, ?_⟩
  simp [h]

theorem mkdirUnlessDir_agrees (hreached : a.reached = .ok (d, b))
    (hwalk : walk a.tree budget [] above = .ok (d, b)) (hdir : IsDir a.tree d) :
    Agrees (a.step name) (mkdirUnlessDir a.tree budget above name) := by
  unfold mkdirUnlessDir
  by_cases hvacant : Normal name ∧ a.tree (d ++ [name]) = none
  · rw [mkdir_vacant hwalk hdir hvacant, step_made hreached hvacant.1 hvacant.2]
    exact agrees_ok rfl
  · rw [mkdir_present hwalk hdir hvacant]
    have hfull := walk_append_dir [name] hwalk hdir
    cases hlast : walk a.tree b d [name] with
    | error f =>
      rw [step_fault hreached hvacant hlast]
      simp only [if_neg (not_leadsToDir (hfull.trans hlast))]
      exact agrees_error _ rfl
    | ok r =>
      obtain ⟨l, b'⟩ := r
      by_cases hl : IsDir a.tree l
      · rw [step_entered hreached hlast hl]
        simp only [if_pos ((leadsToDir_of_ok (hfull.trans hlast)).mpr hl)]
        exact agrees_ok rfl
      · rw [step_blocked hreached hlast hl]
        simp only [if_neg (mt (leadsToDir_of_ok (hfull.trans hlast)).mp hl)]
        exact agrees_error _ rfl

end MakeDirectories

/-- `create_dir_all` makes the directories that an advance makes. -/
theorem createDirAll_agrees (t : Tree C) (budget : Nat) (names : List String) :
    Agrees (advance t budget names) (createDirAll t budget names.reverse) := by
  induction names using List.reverseRecOn with
  | nil => exact agrees_ok rfl
  | append_singleton above name ih =>
    rw [advance_snoc, reverse_append, reverse_singleton, singleton_append]
    unfold createDirAll
    rw [reverse_reverse]
    cases hwalk : walk t budget [] above with
    | ok r =>
      obtain ⟨d, b⟩ := r
      by_cases hdir : IsDir t d
      · -- The parent is there, so the first attempt already decides.
        have hagrees := @mkdirUnlessDir_agrees C budget b above name d ⟨t, [], .ok (d, b)⟩
          rfl hwalk hdir
        rw [advance_of_dir hwalk hdir]
        unfold mkdirUnlessDir at hagrees
        by_cases hvacant : Normal name ∧ t (d ++ [name]) = none
        · rw [mkdir_vacant hwalk hdir hvacant] at hagrees ⊢
          exact hagrees
        · rw [mkdir_present hwalk hdir hvacant] at hagrees ⊢
          exact hagrees
      · rw [mkdir_in_file hwalk hdir, advance_of_file hwalk hdir]
        have hfull := walk_append_file (.nil t) hwalk hdir (cons_ne_nil name [])
        simp only [Fault.IsMissing, if_false, if_neg (not_leadsToDir hfull)]
        exact agrees_error _ rfl
    | error f =>
      rw [mkdir_of_fault hwalk]
      by_cases hf : f.IsMissing
      · simp only [if_pos hf]
        obtain ⟨htree, hfailed⟩ := ih
        cases hcreate : createDirAll t budget above.reverse with
        | mk result t' =>
          rw [hcreate] at htree hfailed
          cases result with
          | error g =>
            obtain ⟨g', hreached⟩ := hfailed.mpr ⟨g, rfl⟩
            rw [step_failed hreached, show t' = _ from htree]
            exact agrees_error _ hreached
          | ok u =>
            cases hreached : (advance t budget above).reached with
            | error g =>
              obtain ⟨g', hg⟩ := hfailed.mp ⟨g, hreached⟩
              cases hg
            | ok r =>
              obtain ⟨d, b⟩ := r
              obtain ⟨hreal, hnames⟩ := (advance_sound t budget above).reached d b hreached
              rw [show t' = _ from htree]
              exact mkdirUnlessDir_agrees hreached hnames hreal.isDir
      · obtain ⟨g, hg⟩ := advance_of_fault hwalk hf
        rw [hg]
        simp only [if_neg hf, if_neg (not_leadsToDir (walk_append_error [name] hwalk))]
        exact agrees_error _ rfl

/-- Where a file opened with creation is, or will be made. -/
def landing (t : Tree C) (budget : Nat) (here : Location) (names : List String) :
    Except Fault Location :=
  match walk t budget here names with
  | .ok (l, _) => if IsDir t l then .error .isDirectory else .ok l
  | .error (.missing d name []) => .ok (d ++ [name])
  | .error f => .error f

/-- `fs::write`. -/
def put (t : Tree C) (budget : Nat) (names : List String) (content : C) :
    Except Fault (Tree C) :=
  (landing t budget [] names).map fun l => Function.update t l (some (.file content))

theorem landing_append {above more : List String} {d : Location}
    (hwalk : walk t budget [] above = .ok (d, b)) (hdir : IsDir t d) :
    landing t budget [] (above ++ more) = landing t b d more := by
  unfold landing
  rw [walk_append_dir more hwalk hdir]

theorem Arrived.dropLast (h : Arrived t l) : Real t l.dropLast := by
  rcases h with hreal | ⟨d, c, content, rfl, hreal, -, -⟩
  · exact hreal.dropLast
  · simpa using hreal

end DbClinic.LinkTree
