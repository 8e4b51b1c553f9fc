import DbClinic.Runtime.Text

/-!
Paths of the standard library, by their components. An absolute path has no `.`
among its names, a relative one at most as the first. A text that ends in a
separator or in `.` has the same components as without that end, but the
operating system then demands a directory.
-/

namespace DbClinic.Runtime

structure PathBuf where
  absolute : Bool
  names : List String
  trailing : Bool
  deriving DecidableEq

namespace PathBuf

def segments (text : String) : List String := (text.toList.splitOn '/').map String.ofList

/-- The names of a text after its root; empty ones and `.` name nothing. -/
def normals (text : String) : List String := (segments text).filter fun c => c ≠ "" ∧ c ≠ "."

def endsInDirectory (text : String) : Bool :=
  (segments text).getLast?.any fun c => c = "" ∨ c = "."

def isAbsoluteText (text : String) : Bool := text.toList.head? = some '/'

/-- `PathBuf::from`. -/
def ofText (text : String) : PathBuf :=
  if isAbsoluteText text then ⟨true, normals text, endsInDirectory text⟩
  else
    match segments text with
    | ["."] => ⟨false, ["."], false⟩
    | "." :: _ => ⟨false, "." :: normals text, endsInDirectory text⟩
    | _ => ⟨false, normals text, text ≠ "" && endsInDirectory text⟩

/-- The names that the operating system is given. -/
def osNames (p : PathBuf) : List String := p.names ++ if p.trailing then ["."] else []

/-- `Path::join`, with a text. -/
def join (base : PathBuf) (text : String) : PathBuf :=
  if isAbsoluteText text then ofText text
  else ⟨base.absolute, base.names ++ normals text, endsInDirectory text⟩

/-- `Path::join`, with one name. -/
def push (base : PathBuf) (name : String) : PathBuf := ⟨base.absolute, base.names ++ [name], false⟩

/-- `Path::parent`. -/
def parent (p : PathBuf) : Option PathBuf :=
  if p.names = [] then none else some ⟨p.absolute, p.names.dropLast, false⟩

/-- `Path::file_name`. -/
def fileName (p : PathBuf) : Option String :=
  p.names.getLast?.filter fun c => c ≠ "." ∧ c ≠ ".."

/-- `Path::starts_with`: whole components are compared. -/
def startsWith (p base : PathBuf) : Bool :=
  if base.absolute = false ∧ base.names = [] then true
  else p.absolute = base.absolute ∧ base.names <+: p.names

/-- `Path::display`, with single separators. -/
def display (p : PathBuf) : String :=
  (if p.absolute then "/" else "") ++ joinText "/" p.names ++ if p.trailing ∧ p.names ≠ [] then "/" else ""

def ofLocation (l : List String) : PathBuf := ⟨true, l, false⟩

@[simp] theorem osNames_ofLocation (l : List String) : (ofLocation l).osNames = l := by
  simp [osNames, ofLocation]

theorem ofText_absolute {text : String} (h : isAbsoluteText text = true) :
    (ofText text).absolute = true := by
  unfold ofText
  rw [if_pos h]

theorem segments_of_no_separator {text : String} (h : '/' ∉ text.toList) :
    segments text = [text] := by
  have hsplit : text.toList.splitOn '/' = [text.toList] := by
    apply List.splitOnP_eq_singleton
    intro c hc
    rw [beq_eq_false_iff_ne]
    rintro rfl
    exact h hc
  simp [segments, hsplit]

theorem isAbsoluteText_of_no_separator {text : String} (h : '/' ∉ text.toList) :
    isAbsoluteText text = false := by
  unfold isAbsoluteText
  rw [decide_eq_false_iff_not]
  intro hhead
  exact h (List.mem_of_mem_head? hhead)

theorem join_of_no_separator (base : PathBuf) {text : String} (h : '/' ∉ text.toList) :
    base.join text = ⟨base.absolute, base.names ++ [text].filter fun c => c ≠ "" ∧ c ≠ ".",
      text = "" ∨ text = "."⟩ := by
  unfold join normals endsInDirectory
  rw [if_neg (by simp [isAbsoluteText_of_no_separator h]), segments_of_no_separator h]
  rfl

theorem join_of_isName (l : List String) {name : String} (h : Path.IsName name) :
    (ofLocation l).join name = ofLocation (l ++ [name]) := by
  rw [join_of_no_separator _ h.2.2.2]
  simp [ofLocation, h.1, h.2.1]

end PathBuf

end DbClinic.Runtime
