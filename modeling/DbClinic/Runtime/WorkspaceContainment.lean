import DbClinic.Runtime.FileOps

/-!
What the operations on a workspace open and change. A path that resolves is
opened where it was checked. A path that does not is checked by its text, or by
its parent alone, and a write then follows it: through a link that ends it, and
through the links and the `..` after a missing directory.
-/

namespace DbClinic.Runtime.FileOps

open LinkTree List

def Inside (root : PathBuf) (l : Location) : Prop := (PathBuf.ofLocation l).startsWith root = true

instance (root : PathBuf) (l : Location) : Decidable (Inside root l) :=
  inferInstanceAs (Decidable (_ = true))

/-- A run stays under the root: it opens and changes only what lies there, and a
run that fails leaves the tree alone. -/
structure Contained {A : Type} (root : PathBuf) (before : Files) (run : Run A) : Prop where
  opened : ∀ l ∈ run.opened, Inside root l
  changed : ∀ l, run.tree l ≠ before l → Inside root l
  failed : ∀ e, run.result = .error e → run.tree = before
  succeeded : ∀ out, run.result = .ok out → run.opened ≠ []

variable {t : Files} {l : Location} {cwd : Option Location} {p root : PathBuf}
variable {path name : String} {names : List String} {A : Type}

theorem contained_refused (root : PathBuf) (t : Files) (e : IoError) :
    Contained root t (⟨.error e, t, []⟩ : Run A) := by
  refine ⟨fun l hl => absurd hl not_mem_nil, fun l hl => absurd rfl hl, fun _ _ => rfl, ?_⟩
  intro out hout
  cases hout

theorem contained_unchanged {run : Run A} (htree : run.tree = t) (hopened : run.opened = [l])
    (hl : Inside root l) :
    Contained root t run := by
  refine ⟨fun l' hl' => ?_, fun l' hl' => ?_, fun _ _ => htree, fun _ _ => ?_⟩
  · rw [hopened, mem_singleton] at hl'
    rw [hl']
    exact hl
  · rw [htree] at hl'
    exact absurd rfl hl'
  · rw [hopened]
    simp

theorem candidatePath_absolute (h : candidatePath cwd path = .ok p) : p.absolute = true := by
  unfold candidatePath at h
  split at h
  · rename_i habs
    cases h
    exact PathBuf.ofText_absolute habs
  · rename_i habs
    cases cwd with
    | none => cases h
    | some here =>
      cases h
      simp [PathBuf.join, habs, PathBuf.ofLocation]

theorem canonicalize_absolute (h : p.absolute = true) : canonicalize t cwd p =
      match walk t maxLinks [] p.osNames with
      | .ok (l, _) => .ok (.ofLocation l)
      | .error f => .error (.os f) := by
  cases hwalk : walk t maxLinks [] p.osNames with
  | error f => simp [canonicalize, h, hwalk]
  | ok r => simp [canonicalize, h, hwalk]

variable {q c : PathBuf} {d : Location}

theorem canonicalize_ok (h : p.absolute = true) (hq : canonicalize t cwd p = .ok q) :
    ∃ l b, walk t maxLinks [] p.osNames = .ok (l, b) ∧ Arrived t l ∧ q = .ofLocation l := by
  rw [canonicalize_absolute h] at hq
  cases hwalk : walk t maxLinks [] p.osNames with
  | error f =>
    rw [hwalk] at hq
    cases hq
  | ok r =>
    obtain ⟨l, b⟩ := r
    rw [hwalk] at hq
    cases hq
    exact ⟨l, b, rfl, walk_arrived (.nil t) hwalk, rfl⟩

theorem normalizePath_ok (h : normalizePath t cwd path = .ok p) :
    ∃ l, Arrived t l ∧ p = .ofLocation l := by
  unfold normalizePath at h
  cases hcand : candidatePath cwd path with
  | error e =>
    rw [hcand] at h
    cases h
  | ok c =>
    rw [hcand] at h
    obtain ⟨l, b, -, hl, rfl⟩ := canonicalize_ok (candidatePath_absolute hcand) h
    exact ⟨l, hl, rfl⟩

theorem openFile_location {l' : Location} {bytes : ByteArray} (h : Arrived t l)
    (hopen : openFile t (.ofLocation l) = .ok (l', bytes)) : l' = l ∧ ¬ IsDir t l := by
  unfold openFile at hopen
  rw [PathBuf.osNames_ofLocation, walk_of_arrived maxLinks h] at hopen
  dsimp only at hopen
  split at hopen
  · cases hopen
  · rename_i hdir
    split at hopen
    · cases hopen
      exact ⟨rfl, hdir⟩
    · cases hopen

theorem inWorkspace_cases {normalized : Except IoError PathBuf} {workspaceRoot : PathBuf}
    (operation : Run A) :
    (∃ e, inWorkspace t cwd normalized workspaceRoot operation = ⟨.error e, t, []⟩ ∧
      ∀ p, normalized = .ok p →
        p.startsWith (canonicalizeWorkspaceRoot t cwd workspaceRoot) = false) ∨
    (∃ p, normalized = .ok p ∧
      p.startsWith (canonicalizeWorkspaceRoot t cwd workspaceRoot) = true ∧
      inWorkspace t cwd normalized workspaceRoot operation = operation) := by
  unfold inWorkspace
  cases normalized with
  | error e =>
    refine Or.inl ⟨e, rfl, fun p hp => ?_⟩
    cases hp
  | ok p =>
    cases hstarts : p.startsWith (canonicalizeWorkspaceRoot t cwd workspaceRoot) with
    | false =>
      simp only [validateWorkspaceBoundary, hstarts]
      refine Or.inl ⟨_, rfl, fun q hq => ?_⟩
      cases hq
      exact hstarts
    | true =>
      refine Or.inr ⟨p, rfl, hstarts, ?_⟩
      simp only [validateWorkspaceBoundary, hstarts, if_true]

theorem readFile_contained {offset limit : Option Nat} (h : Arrived t l)
    (hpath : normalizePath t cwd path = .ok (.ofLocation l)) (hl : Inside root l) :
    Contained root t (readFile t cwd path offset limit) := by
  unfold readFile
  rw [hpath]
  dsimp only
  cases hopen : openFile t (.ofLocation l) with
  | error e => exact contained_refused root t e
  | ok r =>
    obtain ⟨l', bytes⟩ := r
    obtain ⟨rfl, -⟩ := openFile_location h hopen
    dsimp only
    split
    · exact contained_refused root t _
    split
    · exact contained_unchanged rfl rfl hl
    · cases decode bytes with
      | error e => exact contained_unchanged rfl rfl hl
      | ok content => exact contained_unchanged rfl rfl hl

theorem landing_arrived (h : Arrived t l) :
    landing t maxLinks [] l = if IsDir t l then .error .isDirectory else .ok l := by
  unfold landing
  rw [walk_of_arrived maxLinks h]

theorem editFile_contained {oldString newString : String} {replaceAll : Bool} (h : Arrived t l)
    (hpath : normalizePath t cwd path = .ok (.ofLocation l)) (hl : Inside root l) :
    Contained root t (editFile t cwd path oldString newString replaceAll) := by
  unfold editFile
  rw [hpath]
  dsimp only
  cases hopen : openFile t (.ofLocation l) with
  | error e => exact contained_refused root t e
  | ok r =>
    obtain ⟨l', bytes⟩ := r
    obtain ⟨rfl, hfile⟩ := openFile_location h hopen
    dsimp only
    cases decode bytes with
    | error e => exact contained_unchanged rfl rfl hl
    | ok original =>
      dsimp only
      split
      · exact contained_unchanged rfl rfl hl
      split
      · exact contained_unchanged rfl rfl hl
      · rw [PathBuf.osNames_ofLocation, landing_arrived h, if_neg hfile]
        refine ⟨fun l hl' => ?_, fun l hchanged => ?_, fun e he => ?_, fun _ _ => by simp⟩
        · simp only [mem_cons, not_mem_nil, or_false, or_self] at hl'
          rw [hl']
          exact hl
        · by_contra hne
          refine hchanged (Function.update_of_ne ?_ _ _)
          rintro rfl
          exact hne hl
        · cases he

theorem readFileInWorkspace_contained (t : Files) (cwd : Option Location) (path : String)
    (offset limit : Option Nat) (workspaceRoot : PathBuf) :
    Contained (canonicalizeWorkspaceRoot t cwd workspaceRoot) t
      (readFileInWorkspace t cwd path offset limit workspaceRoot) := by
  unfold readFileInWorkspace
  obtain ⟨e, heq, -⟩ | ⟨p, hpath, hstarts, heq⟩ := inWorkspace_cases (readFile t cwd path offset limit)
  · rw [heq]
    exact contained_refused _ t e
  · obtain ⟨l, hl, rfl⟩ := normalizePath_ok hpath
    rw [heq]
    exact readFile_contained hl hpath hstarts

theorem editFileInWorkspace_contained (t : Files) (cwd : Option Location)
    (path oldString newString : String) (replaceAll : Bool) (workspaceRoot : PathBuf) :
    Contained (canonicalizeWorkspaceRoot t cwd workspaceRoot) t
      (editFileInWorkspace t cwd path oldString newString replaceAll workspaceRoot) := by
  unfold editFileInWorkspace
  obtain ⟨e, heq, -⟩ | ⟨p, hpath, hstarts, heq⟩ :=
    inWorkspace_cases (editFile t cwd path oldString newString replaceAll)
  · rw [heq]
    exact contained_refused _ t e
  · obtain ⟨l, hl, rfl⟩ := normalizePath_ok hpath
    rw [heq]
    exact editFile_contained hl hpath hstarts

/-- The names after the parent that the system is given. -/
def lastNames (p : PathBuf) : List String :=
  p.names.getLast?.toList ++ if p.trailing then ["."] else []

theorem osNames_eq (p : PathBuf) : p.osNames = p.names.dropLast ++ lastNames p := by
  unfold PathBuf.osNames lastNames
  rw [← append_assoc]
  congr 1
  cases hnames : p.names using List.reverseRecOn with
  | nil => rfl
  | append_singleton above name => simp

theorem lastNames_ne_nil (h : p.names ≠ []) : lastNames p ≠ [] := by
  unfold lastNames
  rw [getLast?_eq_some_getLast h]
  simp

/-- The path followed in the tree as it is before a write, with a directory for
each missing name: what the directories and the file lead to lies under the
root, or there is nothing to make. -/
def WayInside (root : PathBuf) (t : Files) (p : PathBuf) : Prop :=
  let way := advance t maxLinks p.names.dropLast
  (way.made = [] ∧ ∀ d b, way.reached = .ok (d, b) →
      ∀ l, landing way.tree b d (lastNames p) ≠ .ok l) ∨
    ((∀ l ∈ way.made, Inside root l) ∧ ∃ d b l, way.reached = .ok (d, b) ∧
      landing way.tree b d (lastNames p) = .ok l ∧ Inside root l)

section Writing

variable {t : Files} {p : PathBuf} (content : String)

theorem makeParent_agrees (hnames : p.names ≠ []) :
    Agrees (advance t maxLinks p.names.dropLast) (makeParent t p) := by
  have hosNames : (⟨p.absolute, p.names.dropLast, false⟩ : PathBuf).osNames = p.names.dropLast := by
    simp [PathBuf.osNames]
  unfold makeParent PathBuf.parent
  rw [if_neg hnames]
  dsimp only
  rw [hosNames]
  exact createDirAll_agrees t maxLinks p.names.dropLast

variable {f : Fault}

theorem writeAt_blocked (hnames : p.names ≠ [])
    (hreached : (advance t maxLinks p.names.dropLast).reached = .error f) :
    ∃ e, writeAt t p content =
      ⟨.error e, (advance t maxLinks p.names.dropLast).tree, (originalFile t p).2⟩ := by
  obtain ⟨htree, hfailed⟩ := makeParent_agrees (t := t) hnames
  obtain ⟨g, hg⟩ := hfailed.mp ⟨f, hreached⟩
  refine ⟨.os g, ?_⟩
  unfold writeAt
  cases hmake : makeParent t p with
  | mk result t' =>
    rw [hmake] at htree hg
    cases hg
    cases htree
    rfl

theorem makeParent_ok (hnames : p.names ≠ []) {r : Location × Nat}
    (hreached : (advance t maxLinks p.names.dropLast).reached = .ok r) :
    makeParent t p = (.ok (), (advance t maxLinks p.names.dropLast).tree) := by
  obtain ⟨htree, hfailed⟩ := makeParent_agrees (t := t) hnames
  cases hmake : makeParent t p with
  | mk result t' =>
    rw [hmake] at htree hfailed
    cases result with
    | error g =>
      obtain ⟨f, hf⟩ := hfailed.mpr ⟨g, rfl⟩
      rw [hreached] at hf
      cases hf
    | ok u =>
      cases htree
      rfl

variable {d : Location} {b : Nat}

theorem landing_osNames (hreached : (advance t maxLinks p.names.dropLast).reached = .ok (d, b)) :
    landing (advance t maxLinks p.names.dropLast).tree maxLinks [] p.osNames =
      landing (advance t maxLinks p.names.dropLast).tree b d (lastNames p) := by
  obtain ⟨hreal, hwalk⟩ := (advance_sound t maxLinks p.names.dropLast).reached d b hreached
  rw [osNames_eq, landing_append hwalk hreal.isDir]

theorem writeAt_refused (hnames : p.names ≠ [])
    (hreached : (advance t maxLinks p.names.dropLast).reached = .ok (d, b))
    (hlanding : landing (advance t maxLinks p.names.dropLast).tree b d (lastNames p) = .error f) :
    writeAt t p content =
      ⟨.error (.os f), (advance t maxLinks p.names.dropLast).tree, (originalFile t p).2⟩ := by
  unfold writeAt
  rw [makeParent_ok hnames hreached]
  dsimp only
  rw [landing_osNames hreached, hlanding]

theorem writeAt_written (hnames : p.names ≠ [])
    (hreached : (advance t maxLinks p.names.dropLast).reached = .ok (d, b))
    (hlanding : landing (advance t maxLinks p.names.dropLast).tree b d (lastNames p) = .ok l) :
    ∃ out, writeAt t p content =
      ⟨.ok out, Function.update (advance t maxLinks p.names.dropLast).tree l
        (some (.file content.toUTF8)), (originalFile t p).2 ++ [l]⟩ := by
  unfold writeAt
  rw [makeParent_ok hnames hreached]
  dsimp only
  rw [landing_osNames hreached, hlanding]
  exact ⟨_, rfl⟩

theorem originalFile_opened (hnames : p.names ≠ []) (hl : l ∈ (originalFile t p).2) : ∃ d b,
      advance t maxLinks p.names.dropLast = ⟨t, [], .ok (d, b)⟩ ∧
        landing t b d (lastNames p) = .ok l := by
  unfold originalFile at hl
  cases hopen : openFile t p with
  | error e =>
    rw [hopen] at hl
    exact absurd hl not_mem_nil
  | ok r =>
    obtain ⟨l', bytes⟩ := r
    rw [hopen] at hl
    obtain rfl := mem_singleton.mp hl
    have hlast := lastNames_ne_nil hnames
    unfold openFile at hopen
    rw [osNames_eq] at hopen
    cases hwalk : walk t maxLinks [] p.names.dropLast with
    | error f =>
      rw [walk_append_error _ hwalk] at hopen
      cases hopen
    | ok r =>
      obtain ⟨d, b⟩ := r
      by_cases hdir : IsDir t d
      · refine ⟨d, b, advance_of_dir hwalk hdir, ?_⟩
        rw [walk_append_dir _ hwalk hdir] at hopen
        unfold landing
        cases hrest : walk t b d (lastNames p) with
        | error f =>
          rw [hrest] at hopen
          cases hopen
        | ok r =>
          obtain ⟨l'', b''⟩ := r
          rw [hrest] at hopen
          dsimp only at hopen ⊢
          split at hopen
          · cases hopen
          · rename_i hfile
            rw [if_neg hfile]
            split at hopen
            · cases hopen
              rfl
            · cases hopen
      · rw [walk_append_file (.nil t) hwalk hdir hlast] at hopen
        cases hopen

end Writing

theorem landing_ok {b : Nat} {here : Location} (hreal : Real t here)
    (h : landing t b here names = .ok l) : ¬ IsDir t l := by
  unfold landing at h
  cases hwalk : walk t b here names with
  | ok r =>
    obtain ⟨l', b'⟩ := r
    rw [hwalk] at h
    dsimp only at h
    split at h
    · cases h
    · rename_i hfile
      cases h
      exact hfile
  | error f =>
    rw [hwalk] at h
    cases f with
    | missing d name rest =>
      obtain ⟨-, -, hnone⟩ := walk_vacant hreal hwalk
      cases rest with
      | nil =>
        cases h
        rintro (hroot | hdir)
        · simp at hroot
        · rw [hnone] at hdir
          cases hdir
      | cons c rest => cases h
    | notDirectory => cases h
    | isDirectory => cases h
    | alreadyExists => cases h
    | tooManyLinks => cases h

theorem advance_changed :
    (advance t maxLinks names).tree l ≠ t l ↔ l ∈ (advance t maxLinks names).made := by
  have hsound := advance_sound t maxLinks names
  rw [hsound.tree_eq]
  constructor
  · intro hne
    by_contra hmade
    rw [if_neg hmade] at hne
    exact hne rfl
  · intro hmade
    rw [if_pos hmade, hsound.vacant l hmade]
    simp

theorem advance_unchanged (h : (advance t maxLinks names).made = []) :
    (advance t maxLinks names).tree = t := by
  funext l
  by_contra hne
  have hmade := advance_changed.mp hne
  rw [h] at hmade
  exact absurd hmade not_mem_nil

theorem advance_made_nil (h : (advance t maxLinks names).tree = t) :
    (advance t maxLinks names).made = [] := by
  refine eq_nil_iff_forall_not_mem.mpr fun l hl => ?_
  exact advance_changed.mpr hl (by rw [h])

theorem writeAt_contained_iff (root : PathBuf) (t : Files) (content : String)
    (hnames : p.names ≠ []) :
    Contained root t (writeAt t p content) ↔ WayInside root t p := by
  have hsound := advance_sound t maxLinks p.names.dropLast
  unfold WayInside
  dsimp only
  cases hreached : (advance t maxLinks p.names.dropLast).reached with
  | error f =>
    obtain ⟨e, heq⟩ := writeAt_blocked content hnames hreached
    rw [heq]
    constructor
    · intro h
      refine Or.inl ⟨advance_made_nil (h.failed e rfl), fun d b hok => ?_⟩
      cases hok
    · rintro (⟨hmade, -⟩ | ⟨-, d, b, l, hok, -⟩)
      · have htree := advance_unchanged hmade
        refine ⟨fun l hl => ?_, fun l hl => absurd (congrFun htree l) hl, fun _ _ => htree, ?_⟩
        · obtain ⟨d, b, hadvance, -⟩ := originalFile_opened hnames hl
          rw [hadvance] at hreached
          cases hreached
        · intro out hout
          cases hout
      · cases hok
  | ok r =>
    obtain ⟨d, b⟩ := r
    obtain ⟨hreal, -⟩ := hsound.reached d b hreached
    cases hlanding : landing (advance t maxLinks p.names.dropLast).tree b d (lastNames p) with
    | error f =>
      rw [writeAt_refused content hnames hreached hlanding]
      constructor
      · intro h
        refine Or.inl ⟨advance_made_nil (h.failed _ rfl), fun d' b' hok l hl => ?_⟩
        cases hok
        rw [hlanding] at hl
        cases hl
      · rintro (⟨hmade, -⟩ | ⟨-, d', b', l, hok, hl, -⟩)
        · have htree := advance_unchanged hmade
          refine ⟨fun l hl => ?_, fun l hl => absurd (congrFun htree l) hl, fun _ _ => htree, ?_⟩
          · obtain ⟨d', b', hadvance, hopened⟩ := originalFile_opened hnames hl
            rw [hadvance] at hreached hlanding
            cases hreached
            rw [hopened] at hlanding
            cases hlanding
          · intro out hout
            cases hout
        · cases hok
          rw [hlanding] at hl
          cases hl
    | ok l =>
      obtain ⟨out, heq⟩ := writeAt_written content hnames hreached hlanding
      have hfile := landing_ok hreal hlanding
      rw [heq]
      constructor
      · intro h
        refine Or.inr ⟨fun l' hl' => h.changed l' ?_, d, b, l, rfl, hlanding,
          h.opened l (by simp)⟩
        have hne : l' ≠ l := by
          rintro rfl
          apply hfile
          right
          rw [hsound.tree_eq, if_pos hl']
        dsimp only
        rw [Function.update_of_ne hne]
        exact advance_changed.mpr hl'
      · rintro (⟨-, hnone⟩ | ⟨hmade, d', b', l', hok, hl', hinside⟩)
        · exact absurd hlanding (hnone d b rfl l)
        · cases hok
          rw [hlanding] at hl'
          cases hl'
          refine ⟨fun l₁ hl₁ => ?_, fun l₁ hl₁ => ?_, fun e he => ?_, fun _ _ => by simp⟩
          · rcases mem_append.mp hl₁ with hl₁ | hl₁
            · obtain ⟨d₁, b₁, hadvance, hopened⟩ := originalFile_opened hnames hl₁
              rw [hadvance] at hreached hlanding
              cases hreached
              rw [hopened] at hlanding
              cases hlanding
              exact hinside
            · rw [mem_singleton.mp hl₁]
              exact hinside
          · by_cases hne : l₁ = l
            · rw [hne]
              exact hinside
            · dsimp only at hl₁
              rw [Function.update_of_ne hne] at hl₁
              exact hmade l₁ (advance_changed.mp hl₁)
          · cases he

theorem writeAt_root_contained (root : PathBuf) (t : Files) (content : String) :
    Contained root t (writeAt t (.ofLocation []) content) := by
  have hdir : IsDir t [] := Or.inl rfl
  have hopen : openFile t (.ofLocation []) = .error (.os .isDirectory) := by
    unfold openFile
    rw [PathBuf.osNames_ofLocation, walk_nil]
    exact if_pos hdir
  have hlanding : landing t maxLinks [] [] = .error .isDirectory := by
    unfold landing
    rw [walk_nil]
    exact if_pos hdir
  have heq : writeAt t (.ofLocation []) content = ⟨.error (.os .isDirectory), t, []⟩ := by
    unfold writeAt originalFile
    rw [hopen]
    have hmake : makeParent t (.ofLocation []) = (.ok (), t) := rfl
    rw [hmake, PathBuf.osNames_ofLocation]
    dsimp only
    rw [hlanding]
  rw [heq]
  exact contained_refused root t _

theorem ofLocation_way (h : Arrived t l) :
    advance t maxLinks l.dropLast = ⟨t, [], .ok (l.dropLast, maxLinks)⟩ ∧
      landing t maxLinks l.dropLast (lastNames (.ofLocation l)) =
        if IsDir t l then .error .isDirectory else .ok l := by
  have hreal := h.dropLast
  have hwalk := walk_of_arrived maxLinks (Or.inl hreal : Arrived t l.dropLast)
  refine ⟨advance_of_dir hwalk hreal.isDir, ?_⟩
  have hnames : l.dropLast ++ lastNames (.ofLocation l) = l := by
    have hosNames := osNames_eq (.ofLocation l)
    rw [PathBuf.osNames_ofLocation] at hosNames
    exact hosNames.symm
  rw [← landing_append hwalk hreal.isDir, hnames]
  exact landing_arrived h

theorem writeAt_resolved (content : String) (h : Arrived t l) (hl : Inside root l) :
    Contained root t (writeAt t (.ofLocation l) content) := by
  by_cases hroot : l = []
  · rw [hroot]
    exact writeAt_root_contained root t content
  · obtain ⟨hadvance, hlanding⟩ := ofLocation_way h
    refine (writeAt_contained_iff root t content hroot).mpr ?_
    have hnames : (PathBuf.ofLocation l).names = l := rfl
    unfold WayInside
    rw [hnames, hadvance]
    by_cases hdir : IsDir t l
    · rw [if_pos hdir] at hlanding
      refine Or.inl ⟨rfl, fun d b hok l' hl' => ?_⟩
      cases hok
      rw [hlanding] at hl'
      cases hl'
    · rw [if_neg hdir] at hlanding
      exact Or.inr ⟨fun l' hl' => absurd hl' not_mem_nil, _, _, l, rfl, hlanding, hl⟩

/-- Where a link at the location leads to a file, or to a name that is missing
from a directory, it lies under the root. -/
def LinkInside (root : PathBuf) (t : Files) (l : Location) : Prop :=
  ∀ absolute names, t l = some (.link absolute names) →
    ∀ target, landing t maxLinks [] l = .ok target → Inside root target

theorem landing_of_no_link (hreal : Real t d) (hname : LinkTree.Normal name)
    (hlink : ∀ absolute names, t (d ++ [name]) ≠ some (.link absolute names)) {target : Location}
    (h : landing t maxLinks [] (d ++ [name]) = .ok target) :
    target = d ++ [name] := by
  have hwalk := walk_of_arrived maxLinks (Or.inl hreal : Arrived t d)
  rw [landing_append hwalk hreal.isDir] at h
  unfold landing at h
  cases hentry : t (d ++ [name]) with
  | none =>
    rw [walk_absent _ [] hname hentry] at h
    cases h
    rfl
  | some e =>
    cases e with
    | dir =>
      rw [walk_dir _ [] hname hentry, walk_nil] at h
      have hdir : IsDir t (d ++ [name]) := Or.inr hentry
      dsimp only at h
      rw [if_pos hdir] at h
      cases h
    | file content =>
      rw [walk_file _ [] hname hentry, if_pos rfl] at h
      dsimp only at h
      rw [if_neg (not_isDir_of_file hentry)] at h
      cases h
      rfl
    | link absolute names => exact absurd hentry (hlink absolute names)

theorem wayInside_push_iff (h : Arrived t d) (hname : LinkTree.Normal name)
    (hinside : Inside root (d ++ [name])) :
    WayInside root t ((PathBuf.ofLocation d).push name) ↔ LinkInside root t (d ++ [name]) := by
  have hwalk := walk_of_arrived maxLinks h
  have habove : ((PathBuf.ofLocation d).push name).names.dropLast = d := by
    simp [PathBuf.push, PathBuf.ofLocation]
  have hlast : lastNames ((PathBuf.ofLocation d).push name) = [name] := by
    simp [lastNames, PathBuf.push, PathBuf.ofLocation]
  unfold WayInside LinkInside
  rw [habove, hlast]
  by_cases hdir : IsDir t d
  · have hreal := h.real hdir
    rw [advance_of_dir hwalk hdir, landing_append hwalk hdir]
    dsimp only
    constructor
    · rintro (⟨-, hnone⟩ | ⟨-, d', b, l, hok, hl, hlinside⟩) absolute names - target htarget
      · exact absurd htarget (hnone d maxLinks rfl target)
      · cases hok
        rw [hl] at htarget
        cases htarget
        exact hlinside
    · intro hlink
      cases hlanding : landing t maxLinks d [name] with
      | error f =>
        refine Or.inl ⟨rfl, fun d' b hok l hl => ?_⟩
        cases hok
        rw [hlanding] at hl
        cases hl
      | ok target =>
        refine Or.inr ⟨fun l hl => absurd hl not_mem_nil, d, maxLinks, target, rfl,
          hlanding, ?_⟩
        by_cases hentry : ∃ absolute names, t (d ++ [name]) = some (.link absolute names)
        · obtain ⟨absolute, names, hentry⟩ := hentry
          exact hlink absolute names hentry target hlanding
        · have hfull : landing t maxLinks [] (d ++ [name]) = .ok target := by
            rw [landing_append hwalk hdir]
            exact hlanding
          rw [landing_of_no_link hreal hname (fun absolute names heq =>
            hentry ⟨absolute, names, heq⟩) hfull]
          exact hinside
  · rw [advance_of_file hwalk hdir]
    constructor
    · intro _ absolute names _ target htarget
      unfold landing at htarget
      rw [walk_append_file (.nil t) hwalk hdir (cons_ne_nil name [])] at htarget
      cases htarget
    · intro _
      refine Or.inl ⟨rfl, fun d' b hok => ?_⟩
      cases hok

/-- What keeps the write of a path that passed the check under the root. -/
def PathInside (t : Files) (cwd : Option Location) (root candidate : PathBuf) : Prop :=
  match canonicalize t cwd candidate with
  | .ok _ => True
  | .error _ =>
    match candidate.parent, candidate.fileName with
    | some parent, some name =>
      match canonicalize t cwd parent with
      | .ok canonicalParent => LinkInside root t (canonicalParent.names ++ [name])
      | .error _ => WayInside root t (parent.push name)
    | _, _ => WayInside root t candidate

theorem parent_absolute (habs : p.absolute = true) (h : p.parent = some q) :
    q.absolute = true := by
  unfold PathBuf.parent at h
  split at h
  · cases h
  · cases h
    exact habs

theorem fileName_normal (h : p.fileName = some name) :
    LinkTree.Normal name := by
  obtain ⟨-, hname⟩ := Option.filter_eq_some_iff.mp h
  simpa [LinkTree.Normal] using hname

theorem push_names_ne_nil (p : PathBuf) (name : String) : (p.push name).names ≠ [] := by
  simp [PathBuf.push]

theorem writeAt_missing_contained_iff (content : String) (habs : c.absolute = true) {e : IoError}
    (hcanonical : canonicalize t cwd c = .error e)
    (hstarts : (missingPath t cwd c).startsWith root = true) :
    Contained root t (writeAt t (missingPath t cwd c) content) ↔ PathInside t cwd root c := by
  have hnames : c.names ≠ [] := by
    intro hnil
    have hosNames : c.osNames = if c.trailing then ["."] else [] := by
      simp [PathBuf.osNames, hnil]
    rw [canonicalize_absolute habs, hosNames] at hcanonical
    cases htrailing : c.trailing with
    | false => simp [htrailing] at hcanonical
    | true => simp [htrailing] at hcanonical
  unfold PathInside
  unfold missingPath at hstarts ⊢
  rw [hcanonical]
  dsimp only
  cases hparent : c.parent with
  | none => exact writeAt_contained_iff root t content hnames
  | some parent =>
    cases hname : c.fileName with
    | none => exact writeAt_contained_iff root t content hnames
    | some name =>
      rw [hparent, hname] at hstarts
      dsimp only at hstarts ⊢
      cases hq : canonicalize t cwd parent with
      | error e => exact writeAt_contained_iff root t content (push_names_ne_nil parent name)
      | ok q =>
        obtain ⟨d, -, -, hd, rfl⟩ := canonicalize_ok (parent_absolute habs hparent) hq
        rw [hq] at hstarts
        dsimp only at hstarts ⊢
        rw [writeAt_contained_iff root t content (push_names_ne_nil _ name)]
        exact wayInside_push_iff hd (fileName_normal hname) hstarts

/-- The path of a write is refused, or it stays under the root. -/
def WriteInside (t : Files) (cwd : Option Location) (path content : String) (root : PathBuf) :
    Prop :=
  maxWriteSize < content.utf8ByteSize ∨
    ∀ candidate, candidatePath cwd path = .ok candidate →
      (∀ p, normalizePathAllowMissing t cwd path = .ok p → p.startsWith root = true) →
        PathInside t cwd root candidate

theorem writeFile_contained_iff (content : String) (hcand : candidatePath cwd path = .ok c)
    (hpath : normalizePathAllowMissing t cwd path = .ok p) (hstarts : p.startsWith root = true) :
    Contained root t (writeFile t cwd path content) ↔
      maxWriteSize < content.utf8ByteSize ∨ PathInside t cwd root c := by
  have habs := candidatePath_absolute hcand
  unfold writeFile
  by_cases hsize : maxWriteSize < content.utf8ByteSize
  · rw [if_pos hsize]
    exact iff_of_true (contained_refused root t _) (Or.inl hsize)
  · rw [if_neg hsize, hpath, or_iff_right hsize]
    dsimp only
    unfold normalizePathAllowMissing at hpath
    rw [hcand] at hpath
    cases hcanonical : canonicalize t cwd c with
    | ok q =>
      obtain ⟨l, -, -, hl, rfl⟩ := canonicalize_ok habs hcanonical
      simp only [bind, Except.bind, hcanonical] at hpath
      cases hpath
      refine iff_of_true (writeAt_resolved content hl hstarts) ?_
      unfold PathInside
      rw [hcanonical]
      trivial
    | error e =>
      simp only [bind, Except.bind, hcanonical] at hpath
      cases hpath
      exact writeAt_missing_contained_iff content habs hcanonical hstarts

theorem writeFileInWorkspace_contained_iff (t : Files) (cwd : Option Location)
    (path content : String) (workspaceRoot : PathBuf) :
    Contained (canonicalizeWorkspaceRoot t cwd workspaceRoot) t
        (writeFileInWorkspace t cwd path content workspaceRoot) ↔
      WriteInside t cwd path content (canonicalizeWorkspaceRoot t cwd workspaceRoot) := by
  unfold writeFileInWorkspace WriteInside
  cases hcand : candidatePath cwd path with
  | error e =>
    have hpath : normalizePathAllowMissing t cwd path = .error e := by
      unfold normalizePathAllowMissing
      rw [hcand]
      rfl
    rw [hpath]
    refine iff_of_true (contained_refused _ t e) (Or.inr fun c hc => ?_)
    cases hc
  | ok c =>
    obtain ⟨p, hpath⟩ : ∃ p, normalizePathAllowMissing t cwd path = .ok p := by
      unfold normalizePathAllowMissing
      rw [hcand]
      cases hcanonical : canonicalize t cwd c with
      | ok q => exact ⟨q, by simp only [bind, Except.bind, hcanonical]⟩
      | error e =>
        refine ⟨missingPath t cwd c, ?_⟩
        simp only [bind, Except.bind, hcanonical]
    obtain ⟨e, heq, hrefused⟩ | ⟨p', hp', hstarts, heq⟩ :=
      @inWorkspace_cases t cwd _ (normalizePathAllowMissing t cwd path) workspaceRoot
        (writeFile t cwd path content)
    · rw [heq]
      refine iff_of_true (contained_refused _ t e) (Or.inr fun c' _ hall => ?_)
      have htrue := hall p hpath
      rw [hrefused p hpath] at htrue
      cases htrue
    · rw [heq, writeFile_contained_iff content hcand hp' hstarts]
      constructor
      · rintro (hsize | hinside)
        · exact Or.inl hsize
        · refine Or.inr fun c' hc' _ => ?_
          cases hc'
          exact hinside
      · rintro (hsize | hinside)
        · exact Or.inl hsize
        · refine Or.inr (hinside c rfl fun q hq => ?_)
          rw [hp'] at hq
          cases hq
          exact hstarts

/-- A workspace with a link whose target, outside, is not there. -/
def danglingLink : Files := fun l =>
  if l = ["ws"] then some .dir
  else if l = ["ws", "note"] then some (.link true ["note"])
  else none

/-- A `..` after a directory that the write itself makes leads out as well. -/
example : (writeFileInWorkspace danglingLink (some ["ws"]) "new/../../plan" "text"
    ⟨true, ["ws"], false⟩).opened = [["plan"]] := by decide +kernel

end DbClinic.Runtime.FileOps
