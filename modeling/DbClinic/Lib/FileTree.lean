import Mathlib.Tactic
import DbClinic.Lib.KeyMap

/-!
A tree of directories and files, with the operations of a file-system library
that programs use on it. A path is the list of its components from the root,
so `.`, `..` and repeated separators are resolved when a string is joined to a
path. There are no symbolic links, and an operation fails only for the shape of
the tree: a missing parent, a file in the place of a directory, a directory in
the place of a file.
-/

namespace DbClinic

open List

abbrev Path := List String

namespace Path

/-- The components of a path string. Empty ones and `.` name nothing. -/
def components (text : String) : List String :=
  ((text.toList.splitOn '/').map String.ofList).filter fun c => c ≠ "" ∧ c ≠ "."

/-- Follow components from a directory; `..` leaves the last one. -/
def walk (base : Path) (names : List String) : Path :=
  names.foldl (fun p c => if c = ".." then p.dropLast else p ++ [c]) base

/-- Appending a path string to a path. An absolute string replaces it. -/
def join (base : Path) (text : String) : Path :=
  if text.toList.head? = some '/' then walk [] (components text)
  else walk base (components text)

/-- A file name without its extension. A leading dot starts no extension. -/
def stem (name : String) : String :=
  match name.toList.reverse.dropWhile (· ≠ '.') with
  | [] => name
  | _ :: before => if before = [] then name else String.ofList before.reverse

/-- The extension of a file name: what follows its last dot, if something
precedes that dot. -/
def extension (name : String) : Option String :=
  match name.toList.reverse.dropWhile (· ≠ '.') with
  | [] => none
  | _ :: before =>
    if before = [] then none
    else some (String.ofList (name.toList.reverse.takeWhile (· ≠ '.')).reverse)

def withExtension (p : Path) (extension : String) : Path :=
  match p.getLast? with
  | none => p
  | some name => p.dropLast ++ [stem name ++ "." ++ extension]

/-- A string that names one entry of a directory. -/
def IsName (text : String) : Prop :=
  text ≠ "" ∧ text ≠ "." ∧ text ≠ ".." ∧ '/' ∉ text.toList

instance (text : String) : Decidable (IsName text) := by
  unfold IsName
  infer_instance

theorem components_of_isName {text : String} (h : IsName text) : components text = [text] := by
  obtain ⟨hempty, hdot, -, hslash⟩ := h
  have hsplit : text.toList.splitOn '/' = [text.toList] := by
    apply splitOnP_eq_singleton
    intro c hc
    rw [beq_eq_false_iff_ne]
    rintro rfl
    exact hslash hc
  simp [components, hsplit, hempty, hdot]

theorem join_of_isName (base : Path) {text : String} (h : IsName text) :
    base.join text = base ++ [text] := by
  have hhead : ¬ text.toList.head? = some '/' := by
    intro heq
    exact h.2.2.2 (mem_of_mem_head? heq)
  simp [join, hhead, components_of_isName h, walk, h.2.2.1]

variable {suffix : String}

theorem span_reverse_append (base : String) (hsuffix : '.' ∉ suffix.toList) :
    (base ++ "." ++ suffix).toList.reverse.dropWhile (· ≠ '.') = '.' :: base.toList.reverse ∧
      (base ++ "." ++ suffix).toList.reverse.takeWhile (· ≠ '.') = suffix.toList.reverse := by
  have hreverse : (base ++ "." ++ suffix).toList.reverse =
      suffix.toList.reverse ++ '.' :: base.toList.reverse := by simp
  have hall : ∀ c ∈ suffix.toList.reverse, decide (c ≠ '.') = true := by
    intro c hc
    rw [mem_reverse] at hc
    rw [decide_eq_true_eq]
    rintro rfl
    exact hsuffix hc
  rw [hreverse, dropWhile_append_of_pos hall, takeWhile_append_of_pos hall]
  simp

theorem stem_append {base : String} (hbase : base ≠ "") (hsuffix : '.' ∉ suffix.toList) :
    stem (base ++ "." ++ suffix) = base := by
  have hne : base.toList.reverse ≠ [] := by simpa using hbase
  unfold stem
  rw [(span_reverse_append base hsuffix).1]
  dsimp only
  rw [if_neg hne, reverse_reverse, String.ofList_toList]

theorem extension_append (base : String) (hsuffix : '.' ∉ suffix.toList) :
    extension (base ++ "." ++ suffix) = if base = "" then none else some suffix := by
  obtain ⟨hdrop, htake⟩ := span_reverse_append base hsuffix
  unfold extension
  rw [hdrop, htake]
  by_cases hbase : base = ""
  · simp [hbase]
  · simp [hbase]

theorem eq_of_extension {name ext : String} (h : extension name = some ext) :
    name = stem name ++ "." ++ ext := by
  unfold extension at h
  unfold stem
  have hsplit := takeWhile_append_dropWhile (p := (· ≠ '.')) (l := name.toList.reverse)
  split at h
  · cases h
  · rename_i c before hdrop
    split at h
    · cases h
    · rename_i hne
      cases h
      rw [hdrop] at hsplit
      have hc : c = '.' := by
        have hhead := head?_dropWhile_not (fun x => decide (x ≠ '.')) name.toList.reverse
        rw [hdrop] at hhead
        simpa using hhead
      rw [if_neg hne]
      generalize List.takeWhile (fun x => decide (x ≠ '.')) name.toList.reverse = tail
        at hsplit ⊢
      apply String.toList_injective
      rw [← reverse_reverse name.toList, ← hsplit, hc]
      simp

end Path

inductive Node (α : Type*) where
  | dir
  | file (data : α)

/-- Whether a lookup found a directory is decidable whatever files hold. -/
instance {α : Type*} : (node : Option (Node α)) → Decidable (node = some .dir)
  | some .dir => isTrue rfl
  | some (.file _) => isFalse (by simp)
  | none => isFalse (by simp)

inductive IoError where
  | notFound
  | alreadyExists
  | notADirectory
  | isADirectory
  | invalidData
  deriving DecidableEq

/-- A file tree. The field `closed` says that every node lies in a directory. -/
structure FileTree (α : Type*) where
  nodes : KeyMap Path (Node α)
  closed : ∀ (p : Path) (n : String) (v : Node α),
    nodes.get (p ++ [n]) = some v → p = [] ∨ nodes.get p = some .dir

namespace FileTree

variable {α : Type*}

def empty : FileTree α := ⟨KeyMap.empty, by simp⟩

def get (t : FileTree α) (p : Path) : Option (Node α) :=
  if p = [] then some .dir else t.nodes.get p

def fileAt (t : FileTree α) (p : Path) : Option α :=
  match t.get p with
  | some (.file data) => some data
  | _ => none

def pathExists (t : FileTree α) (p : Path) : Bool := (t.get p).isSome

variable {t t' : FileTree α} {p q base src dst d : Path} {data : α} {names : List String}
variable {v : Node α} {keep : String → Bool}

theorem pathExists_of_get {node : Node α} (h : t.get p = some node) :
    t.pathExists p = true := by
  simp [pathExists, h]

@[simp] theorem get_root (t : FileTree α) : t.get [] = some .dir := rfl

@[simp] theorem get_empty_cons (n : String) (p : Path) :
    (empty : FileTree α).get (n :: p) = none := rfl

theorem get_parent {n : String} (h : t.get (p ++ [n]) = some v) : t.get p = some .dir := by
  have hnodes : t.nodes.get (p ++ [n]) = some v := by simpa [get] using h
  rcases t.closed p n v hnodes with rfl | hdir
  · rfl
  · unfold get
    split
    · rfl
    · exact hdir

theorem get_ancestor (h : t.get q = some v) (hpre : p <+: q) (hne : p ≠ q) :
    t.get p = some .dir := by
  obtain ⟨suffix, rfl⟩ := hpre
  induction suffix using List.reverseRecOn generalizing v with
  | nil => exact absurd (append_nil p).symm hne
  | append_singleton rest n ih =>
    rw [← append_assoc] at h
    have hparent := get_parent h
    by_cases hrest : rest = []
    · subst hrest
      simpa using hparent
    · exact ih hparent (by simpa using hrest)

/-- Replace the node at a path whose parent is a directory. A directory is
only replaced by a directory. -/
def put (t : FileTree α) (p : Path) (v : Node α) (_hp : p ≠ [])
    (hparent : t.get p.dropLast = some .dir)
    (hkeep : t.get p = some .dir → v = .dir) : FileTree α where
  nodes := t.nodes.insert p v
  closed := by
    intro q n w hw
    rw [KeyMap.get_insert] at hw
    by_cases hq : q = []
    · exact .inl hq
    right
    have hparentOf : t.get q = some .dir := by
      by_cases heq : q ++ [n] = p
      · simpa [← heq] using hparent
      · exact get_parent (n := n) (v := w) (by simpa [heq, get] using hw)
    rw [KeyMap.get_insert]
    by_cases hqp : q = p
    · simp [hqp, hkeep (hqp ▸ hparentOf)]
    · simpa [hqp, get, hq] using hparentOf

/-- Remove a path and everything below it. -/
def prune (t : FileTree α) (p : Path) : FileTree α where
  nodes := t.nodes.restrict fun q => !p.isPrefixOf q
  closed := by
    intro q n v hv
    rw [KeyMap.get_restrict] at hv
    by_cases hpre : p <+: q ++ [n]
    · simp [List.isPrefixOf_iff_prefix.mpr hpre] at hv
    by_cases hq : q = []
    · exact .inl hq
    right
    have hnot : ¬ p <+: q := fun h => hpre (h.trans (prefix_append q [n]))
    have hdir : t.get q = some .dir := get_parent (n := n) (v := v) (by
      have hfalse : p.isPrefixOf (q ++ [n]) = false := by
        simpa [← isPrefixOf_iff_prefix] using hpre
      simpa [get, hfalse] using hv)
    have hfalse : p.isPrefixOf q = false := by
      simpa [← isPrefixOf_iff_prefix] using hnot
    simpa [KeyMap.get_restrict, hfalse, get, hq] using hdir

theorem get_put (t : FileTree α) (hp : p ≠ []) (hparent : t.get p.dropLast = some .dir)
    (hkeep : t.get p = some .dir → v = .dir) (q : Path) :
    (t.put p v hp hparent hkeep).get q = if q = p then some v else t.get q := by
  by_cases hq : q = []
  · subst hq
    simp [get, hp.symm]
  · simp [get, put, hq, KeyMap.get_insert]

theorem get_prune (t : FileTree α) (p : Path) (hp : p ≠ []) (q : Path) :
    (t.prune p).get q = if p <+: q then none else t.get q := by
  by_cases hq : q = []
  · subst hq
    simp [get, hp]
  · by_cases hpre : p <+: q
    · simp [get, prune, hq, KeyMap.get_restrict, isPrefixOf_iff_prefix.mpr hpre, hpre]
    · have hfalse : p.isPrefixOf q = false := by
        simpa [← isPrefixOf_iff_prefix] using hpre
      simp [get, prune, hq, KeyMap.get_restrict, hfalse, hpre]

theorem get_prune_of_ne (t : FileTree α) (p : Path) (hq : q ≠ []) :
    (t.prune p).get q = if p <+: q then none else t.get q := by
  rcases eq_or_ne p [] with rfl | hp
  · simp [get, prune, hq, KeyMap.get_restrict]
  · exact get_prune t p hp q

/-- Make the directory `p`, whose parent is a directory and which does not
exist. -/
def mkdir (t : FileTree α) (p : Path) (hp : p ≠ [])
    (hparent : t.get p.dropLast = some .dir) : FileTree α :=
  t.put p .dir hp hparent fun _ => rfl

/-- Create the directories `names` one below the other, from the directory
`base` on. -/
def createDirAllFrom (t : FileTree α) (base : Path) : List String → Except IoError (FileTree α)
  | [] => .ok t
  | n :: rest =>
    match t.get (base ++ [n]) with
    | some .dir => createDirAllFrom t (base ++ [n]) rest
    | some (.file _) => .error (if rest = [] then .alreadyExists else .notADirectory)
    | none =>
      if hbase : t.get base = some .dir then
        createDirAllFrom (t.mkdir (base ++ [n]) (by simp) (by simpa using hbase))
          (base ++ [n]) rest
      else .error .notFound

/-- `mkdir -p`. -/
def createDirAll (t : FileTree α) (p : Path) : Except IoError (FileTree α) :=
  createDirAllFrom t [] p

/-- Write a file, creating it if needed. The parent must be there. -/
def writeFile (t : FileTree α) (p : Path) (data : α) : Except IoError (FileTree α) :=
  if hdir : t.get p = some .dir then .error .isADirectory
  else if hparent : t.get p.dropLast = some .dir then
    .ok (t.put p (.file data) (by rintro rfl; exact hdir rfl) hparent fun h => absurd h hdir)
  else .error .notFound

def readFile (t : FileTree α) (p : Path) : Except IoError α :=
  match t.get p with
  | some (.file data) => .ok data
  | some .dir => .error .isADirectory
  | none => .error .notFound

def removeFile (t : FileTree α) (p : Path) : Except IoError (FileTree α) :=
  match t.get p with
  | some (.file _) => .ok (t.prune p)
  | some .dir => .error .isADirectory
  | none => .error .notFound

def removeDirAll (t : FileTree α) (p : Path) : Except IoError (FileTree α) :=
  match t.get p with
  | some .dir => .ok (t.prune p)
  | some (.file _) => .error .notADirectory
  | none => .error .notFound

def rename (t : FileTree α) (src dst : Path) : Except IoError (FileTree α) :=
  match t.get src with
  | some (.file data) =>
    if t.get dst = some .dir then .error .isADirectory
    else (t.prune src).writeFile dst data
  | some .dir => .error .isADirectory
  | none => .error .notFound

/-- The name under which `q` is listed in the directory `p`. -/
def entryName (p q : Path) : Option String :=
  if q.dropLast = p then q.getLast? else none

/-- The names of the entries of a directory. -/
def readDir (t : FileTree α) (p : Path) : List String :=
  t.nodes.keys.filterMap (entryName p)

theorem get_below_file (hfile : t.get p = some (.file data)) (hpre : p <+: q) (hne : q ≠ p) :
    t.get q = none := by
  cases hq : t.get q with
  | none => rfl
  | some v =>
    have hdir := get_ancestor hq hpre hne.symm
    rw [hfile] at hdir
    cases hdir

theorem get_prune_file (hfile : t.get p = some (.file data)) (q : Path) :
    (t.prune p).get q = if q = p then none else t.get q := by
  have hp : p ≠ [] := by
    rintro rfl
    cases hfile
  rw [get_prune t p hp]
  by_cases hq : q = p
  · simp [hq]
  · by_cases hpre : p <+: q
    · simp [hpre, hq, get_below_file hfile hpre hq]
    · simp [hpre, hq]

private theorem get_of_createDirAllFrom (hbase : t.get base = some .dir)
    (h : t.createDirAllFrom base names = .ok t') (q : Path) :
    t'.get q = if base <+: q ∧ q <+: base ++ names then some .dir else t.get q := by
  induction names generalizing t base with
  | nil =>
    cases h
    by_cases hq : base <+: q ∧ q <+: base ++ []
    · have heq : q = base := by
        obtain ⟨hpre, hsuf⟩ := hq
        rw [append_nil] at hsuf
        exact hsuf.eq_of_length_le hpre.length_le
      simp [heq, hbase]
    · rw [if_neg hq]
  | cons n rest ih =>
    have hsplit : base <+: q ∧ q <+: base ++ n :: rest ↔
        q = base ∨ (base ++ [n] <+: q ∧ q <+: (base ++ [n]) ++ rest) := by
      constructor
      · rintro ⟨⟨suffix, rfl⟩, hsuf⟩
        rw [prefix_append_right_inj] at hsuf
        cases suffix with
        | nil => exact .inl (append_nil base)
        | cons m more =>
          obtain ⟨rfl, hmore⟩ := cons_prefix_cons.mp hsuf
          exact .inr ⟨by simp, by simpa using hmore⟩
      · rintro (rfl | ⟨hpre, hsuf⟩)
        · exact ⟨prefix_rfl, prefix_append _ _⟩
        · exact ⟨(prefix_append base [n]).trans hpre, by simpa using hsuf⟩
    have hfinish : ∀ u : FileTree α, u.get (base ++ [n]) = some .dir →
        (∀ r, r ≠ base ++ [n] → u.get r = t.get r) →
        u.createDirAllFrom (base ++ [n]) rest = .ok t' →
        t'.get q = if base <+: q ∧ q <+: base ++ n :: rest then some .dir else t.get q := by
      intro u hdir hsame hrun
      rw [ih hdir hrun]
      by_cases hin : base ++ [n] <+: q ∧ q <+: (base ++ [n]) ++ rest
      · rw [if_pos hin, if_pos (hsplit.mpr (.inr hin))]
      · rw [if_neg hin]
        by_cases hqb : q = base
        · rw [if_pos (hsplit.mpr (.inl hqb)), hqb, hsame base (by simp), hbase]
        · have hqn : q ≠ base ++ [n] := by
            rintro rfl
            exact hin ⟨prefix_rfl, prefix_append _ _⟩
          rw [hsame q hqn, if_neg]
          exact fun hboth => (hsplit.mp hboth).elim hqb hin
    unfold createDirAllFrom at h
    split at h
    · exact hfinish t ‹_› (fun _ _ => rfl) h
    · cases h
    · rw [dif_pos hbase] at h
      refine hfinish _ ?_ (fun r hr => ?_) h
      · simp [mkdir, get_put]
      · simp [mkdir, get_put, hr]

/-- `create_dir_all` makes every prefix of the path a directory and touches
nothing else. -/
theorem get_of_createDirAll (h : t.createDirAll p = .ok t') (q : Path) :
    t'.get q = if q <+: p then some .dir else t.get q := by
  simpa using get_of_createDirAllFrom (t.get_root) h q

private theorem createDirAllFrom_ok (hbase : t.get base = some .dir)
    (hfree : ∀ q data, q <+: base ++ names → t.get q ≠ some (.file data)) :
    ∃ t', t.createDirAllFrom base names = .ok t' := by
  induction names generalizing t base with
  | nil => exact ⟨t, rfl⟩
  | cons n rest ih =>
    have hassoc : base ++ n :: rest = (base ++ [n]) ++ rest := by simp
    unfold createDirAllFrom
    split
    · exact ih ‹_› (by rwa [← hassoc])
    · exact absurd ‹_› (hfree _ _ (by rw [hassoc]; exact prefix_append _ _))
    · rw [dif_pos hbase]
      refine ih (by simp [mkdir, get_put]) (fun q data hq => ?_)
      rw [mkdir, get_put]
      split
      · simp
      · exact hfree q data (by rwa [hassoc])

private theorem no_file_of_createDirAllFrom (hbase : t.get base = some .dir)
    (h : t.createDirAllFrom base names = .ok t') (hq : q <+: base ++ names) :
    t.get q ≠ some (.file data) := by
  induction names generalizing t base with
  | nil =>
    intro hfile
    rw [append_nil] at hq
    by_cases hne : q = base
    · rw [hne, hbase] at hfile
      cases hfile
    · rw [get_ancestor hbase hq hne] at hfile
      cases hfile
  | cons n rest ih =>
    have hassoc : base ++ n :: rest = (base ++ [n]) ++ rest := by simp
    rw [hassoc] at hq
    unfold createDirAllFrom at h
    split at h
    · exact ih ‹_› h hq
    · cases h
    · rename_i hnone
      rw [dif_pos hbase] at h
      have hnew := ih (by simp [mkdir, get_put]) h hq
      rw [mkdir, get_put] at hnew
      split at hnew
      · rename_i heq
        rw [heq, hnone]
        simp
      · exact hnew

/-- `create_dir_all` succeeds exactly when no regular file is in the way. -/
theorem createDirAll_ok_iff (t : FileTree α) (p : Path) :
    (∃ t', t.createDirAll p = .ok t') ↔
      ∀ q data, q <+: p → t.get q ≠ some (.file data) := by
  constructor
  · rintro ⟨t', h⟩ q data hq
    exact no_file_of_createDirAllFrom rfl h (by simpa using hq)
  · intro hfree
    exact createDirAllFrom_ok rfl (by simpa using hfree)

private theorem createDirAllFrom_of_dir (h : t.get (base ++ names) = some .dir) :
    t.createDirAllFrom base names = .ok t := by
  induction names generalizing base with
  | nil => rfl
  | cons n rest ih =>
    have hassoc : base ++ n :: rest = (base ++ [n]) ++ rest := by simp
    rw [hassoc] at h
    have hfirst : t.get (base ++ [n]) = some .dir := by
      by_cases hrest : rest = []
      · simpa [hrest] using h
      · exact get_ancestor h (prefix_append _ _) (by simpa using hrest)
    unfold createDirAllFrom
    rw [hfirst]
    exact ih h

theorem createDirAll_of_dir (h : t.get p = some .dir) :
    t.createDirAll p = .ok t := createDirAllFrom_of_dir (by simpa using h)

theorem get_of_writeFile (h : t.writeFile p data = .ok t') (q : Path) :
    t'.get q = if q = p then some (.file data) else t.get q := by
  unfold writeFile at h
  split at h
  · cases h
  · split at h
    · cases h
      rw [get_put]
    · cases h

theorem writeFile_ok (data : α) (hdir : t.get p ≠ some .dir)
    (hparent : t.get p.dropLast = some .dir) :
    ∃ t', t.writeFile p data = .ok t' := by
  simp [writeFile, hdir, hparent]

theorem get_of_rename (h : t.rename src dst = .ok t') :
    ∃ data, t.get src = some (.file data) ∧ ∀ q,
      t'.get q = if q = dst then some (.file data) else if q = src then none else t.get q := by
  unfold rename at h
  split at h
  · rename_i data hsrc
    split at h
    · cases h
    · refine ⟨data, hsrc, fun q => ?_⟩
      rw [get_of_writeFile h, get_prune_file hsrc]
  · cases h
  · cases h

theorem rename_ok (hsrc : t.get src = some (.file data)) (hdst : t.get dst ≠ some .dir)
    (hparent : t.get dst.dropLast = some .dir) : ∃ t', t.rename src dst = .ok t' := by
  have hshorter : dst.dropLast ≠ src := by
    intro heq
    rw [heq, hsrc] at hparent
    cases hparent
  unfold rename
  rw [hsrc]
  dsimp only
  rw [if_neg hdst]
  refine writeFile_ok _ ?_ ?_
  · rw [get_prune_file hsrc]
    split
    · simp
    · exact hdst
  · rwa [get_prune_file hsrc, if_neg hshorter]

theorem get_of_removeFile (h : t.removeFile p = .ok t') (q : Path) :
    t'.get q = if q = p then none else t.get q := by
  unfold removeFile at h
  split at h
  · rename_i hfile
    cases h
    exact get_prune_file hfile q
  · cases h
  · cases h

private theorem entryName_eq_some_iff (p q : Path) (n : String) :
    entryName p q = some n ↔ q = p ++ [n] := by
  unfold entryName
  constructor
  · intro h
    split at h
    · rename_i hparent
      rw [← hparent]
      exact (dropLast_append_getLast? n h).symm
    · cases h
  · rintro rfl
    simp

theorem mem_readDir (t : FileTree α) (p : Path) (n : String) :
    n ∈ t.readDir p ↔ ∃ v, t.get (p ++ [n]) = some v := by
  have hget : ∀ v, t.get (p ++ [n]) = some v ↔ (p ++ [n], v) ∈ t.nodes.entries := by
    intro v
    simp [get, KeyMap.get_eq_some_iff]
  simp [readDir, KeyMap.keys, entryName_eq_some_iff, hget]

theorem filter_readDir_eq (t : FileTree α) (d : Path) (keep : String → Bool) :
    (t.readDir d).filter keep = t.nodes.keys.filterMap fun q => (entryName d q).filter keep := by
  unfold readDir
  rw [filter_filterMap]

theorem filter_readDir_of_writeFile (h : t.writeFile p data = .ok t')
    (hp : ∀ n, p = d ++ [n] → keep n = false) :
    (t'.readDir d).filter keep = (t.readDir d).filter keep := by
  rw [filter_readDir_eq, filter_readDir_eq]
  unfold writeFile at h
  split at h
  · cases h
  · split at h
    · cases h
      refine t.nodes.filterMap_keys_insert _ ?_
      rw [Option.filter_eq_none_iff]
      intro n hn
      rw [entryName_eq_some_iff] at hn
      simp [hp n hn]
    · cases h

theorem filter_readDir_of_prune (t : FileTree α) (hp : ∀ n, keep n = true → ¬ p <+: d ++ [n]) :
    ((t.prune p).readDir d).filter keep = (t.readDir d).filter keep := by
  rw [filter_readDir_eq, filter_readDir_eq]
  refine t.nodes.filterMap_keys_restrict fun q hq => ?_
  rw [Bool.not_eq_false', isPrefixOf_iff_prefix] at hq
  rw [Option.filter_eq_none_iff]
  intro n hn hkeep
  rw [entryName_eq_some_iff] at hn
  exact hp n hkeep (hn ▸ hq)

theorem filter_readDir_of_rename (h : t.rename src dst = .ok t')
    (hsrc : ∀ n, keep n = true → ¬ src <+: d ++ [n]) (hdst : ∀ n, dst = d ++ [n] → keep n = false) :
    (t'.readDir d).filter keep = (t.readDir d).filter keep := by
  unfold rename at h
  split at h
  · split at h
    · cases h
    · rw [filter_readDir_of_writeFile h hdst, t.filter_readDir_of_prune hsrc]
  · cases h
  · cases h

theorem readDir_nodup (t : FileTree α) (p : Path) : (t.readDir p).Nodup := by
  refine t.nodes.nodup.filterMap ?_
  intro q r n hq hr
  rw [Option.mem_def, entryName_eq_some_iff] at hq hr
  rw [hq, hr]

end FileTree

end DbClinic
