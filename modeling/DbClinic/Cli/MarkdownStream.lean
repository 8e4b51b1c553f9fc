import DbClinic.Runtime.Trim

/-!
Markdown that is rendered while it comes in. A part of the text is handed to the
renderer as soon as it ends behind a blank line or a closing fence; the rest
waits. Places in a text are counted in characters.
-/

namespace DbClinic.Cli

open List
open DbClinic.Runtime (isWhitespace trim)

/-- `split_inclusive('\n')`. -/
def splitInclusive : List Char → List (List Char)
  | [] => []
  | c :: text =>
    if c = '\n' then [c] :: splitInclusive text
    else match splitInclusive text with
      | [] => [[c]]
      | line :: lines => (c :: line) :: lines

/-- `trim_end_matches('\n')`. -/
def trimNewlines (line : List Char) : List Char := (line.reverse.dropWhile (· = '\n')).reverse

/-- At least three backticks or tildes. -/
structure FenceMarker where
  character : Char
  length : Nat
  isMarker : character = '`' ∨ character = '~'
  long : 3 ≤ length
  deriving DecidableEq

def parseFenceOpener (line : List Char) : Option FenceMarker :=
  let indent := (line.takeWhile (· = ' ')).length
  if 3 < indent then none
  else
    let rest := line.drop indent
    match rest.head? with
    | none => none
    | some character =>
      if hmarker : character = '`' ∨ character = '~' then
        let length := (rest.takeWhile (· = character)).length
        if hlong : 3 ≤ length then
          if character = '`' ∧ '`' ∈ rest.drop length then none
          else some ⟨character, length, hmarker, hlong⟩
        else none
      else none

def lineClosesFence (line : List Char) (opener : FenceMarker) : Bool :=
  let indent := (line.takeWhile (· = ' ')).length
  if 3 < indent then false
  else
    let rest := line.drop indent
    let length := (rest.takeWhile (· = opener.character)).length
    if length < opener.length then false
    else (rest.drop length).all fun c => c = ' ' || c = '\t'

/-- The loop of `find_stream_safe_boundary`. -/
def boundaryFrom : List (List Char) → (offset : Nat) → (openFence : Option FenceMarker) →
    (lastBoundary : Option Nat) → Option Nat
  | [], _, _, lastBoundary => lastBoundary
  | line :: lines, offset, openFence, lastBoundary =>
    let lineWithoutNewline := trimNewlines line
    let lineEnd := offset + line.length
    match openFence with
    | some opener =>
      if lineClosesFence lineWithoutNewline opener then
        boundaryFrom lines lineEnd none (some lineEnd)
      else boundaryFrom lines lineEnd (some opener) lastBoundary
    | none =>
      match parseFenceOpener lineWithoutNewline with
      | some opener => boundaryFrom lines lineEnd (some opener) lastBoundary
      | none =>
        if trim lineWithoutNewline = [] then
          boundaryFrom lines lineEnd none (some lineEnd)
        else boundaryFrom lines lineEnd none lastBoundary

def findStreamSafeBoundary (markdown : List Char) : Option Nat :=
  boundaryFrom (splitInclusive markdown) 0 none none

structure MarkdownStreamState where
  pending : List Char
  deriving DecidableEq

namespace MarkdownStreamState

/-- The state after a delta, and the source of what is rendered. -/
def push (m : MarkdownStreamState) (delta : List Char) :
    Option (List Char) × MarkdownStreamState :=
  let pending := m.pending ++ delta
  match findStreamSafeBoundary pending with
  | none => (none, ⟨pending⟩)
  | some split => (some (pending.take split), ⟨pending.drop split⟩)

def flush (m : MarkdownStreamState) : Option (List Char) × MarkdownStreamState :=
  if trim m.pending = [] then (none, ⟨[]⟩) else (some m.pending, ⟨[]⟩)

/-- The sources that a row of deltas hands to the renderer. -/
def pushAll (m : MarkdownStreamState) : List (List Char) →
    List (List Char) × MarkdownStreamState
  | [] => ([], m)
  | delta :: deltas =>
    let pushed := m.push delta
    let others := pushed.2.pushAll deltas
    (pushed.1.toList ++ others.1, others.2)

end MarkdownStreamState

def afterLine (openFence : Option FenceMarker) (line : List Char) : Option FenceMarker :=
  match openFence with
  | some opener => if lineClosesFence line opener then none else some opener
  | none => parseFenceOpener line

/-- The fence that is open before the last line of a text, and this line so far. -/
structure LineScan where
  openFence : Option FenceMarker
  line : List Char
  deriving DecidableEq

namespace LineScan

def feed (s : LineScan) (c : Char) : LineScan :=
  if c = '\n' then ⟨afterLine s.openFence s.line, []⟩ else ⟨s.openFence, s.line ++ [c]⟩

def feedAll (s : LineScan) (text : List Char) : LineScan := text.foldl feed s

theorem feedAll_append (s : LineScan) (front back : List Char) :
    s.feedAll (front ++ back) = (s.feedAll front).feedAll back := foldl_append

variable {line : List Char}

theorem feedAll_line (s : LineScan) (h : '\n' ∉ line) :
    s.feedAll line = ⟨s.openFence, s.line ++ line⟩ := by
  induction line generalizing s with
  | nil => simp [feedAll]
  | cons c line ih =>
    simp only [mem_cons, not_or] at h
    have hfirst : s.feed c = ⟨s.openFence, s.line ++ [c]⟩ := if_neg (Ne.symm h.1)
    have hrest := ih (s.feed c) h.2
    rw [hfirst, append_assoc] at hrest
    exact (congrArg (feedAll · line) hfirst).trans hrest

theorem feedAll_newline (s : LineScan) (h : '\n' ∉ line) (rest : List Char) :
    s.feedAll (line ++ '\n' :: rest) =
      feedAll ⟨afterLine s.openFence (s.line ++ line), []⟩ rest := by
  rw [feedAll_append, feedAll_line s h]
  rfl

end LineScan

def scanText (text : List Char) : LineScan := LineScan.feedAll ⟨none, []⟩ text

theorem scanText_append (front back : List Char) :
    scanText (front ++ back) = (scanText front).feedAll back := LineScan.feedAll_append _ _ _

def lineRest (rest : List Char) : List Char := rest.takeWhile (· ≠ '\n')

/-- A fence is open at a place: it is open before the line of this place, and if
the place is inside the line, the line does not close it. -/
def FenceOpenAt (before rest : List Char) : Prop :=
  ∃ opener, (scanText before).openFence = some opener ∧
    ((scanText before).line = [] ∨
      lineClosesFence ((scanText before).line ++ lineRest rest) opener = false)

theorem run_append_drop (text : List Char) (c : Char) :
    text = List.replicate (text.takeWhile (· = c)).length c ++
      text.drop (text.takeWhile (· = c)).length := by
  induction text with
  | nil => rfl
  | cons d text ih =>
    by_cases hd : d = c
    · subst hd
      simpa [replicate_succ] using ih
    · simp [hd]

theorem takeWhile_run (n : Nat) {c : Char} {rest : List Char} (h : rest.head? ≠ some c) :
    (List.replicate n c ++ rest).takeWhile (· = c) = List.replicate n c := by
  have hrest : rest.takeWhile (· = c) = [] := by
    cases rest with
    | nil => rfl
    | cons d rest =>
      have hd : d ≠ c := fun heq => h (congrArg some heq)
      simp [hd]
  rw [takeWhile_append_of_pos (by simp), hrest, append_nil]

theorem head?_drop_run (text : List Char) (c : Char) :
    (text.drop (text.takeWhile (· = c)).length).head? ≠ some c := by
  induction text with
  | nil => simp
  | cons d text ih =>
    by_cases hd : d = c
    · simpa [hd] using ih
    · simp [hd]

variable {line : List Char}

theorem splitInclusive_line (h : '\n' ∉ line) (hne : line ≠ []) :
    splitInclusive line = [line] := by
  induction line with
  | nil => exact absurd rfl hne
  | cons c line ih =>
    simp only [mem_cons, not_or] at h
    rw [splitInclusive, if_neg (Ne.symm h.1)]
    cases line with
    | nil => rfl
    | cons d line => rw [ih h.2 (cons_ne_nil d line)]

theorem splitInclusive_newline (h : '\n' ∉ line) (rest : List Char) :
    splitInclusive (line ++ '\n' :: rest) = (line ++ ['\n']) :: splitInclusive rest := by
  induction line with
  | nil => rfl
  | cons c line ih =>
    simp only [mem_cons, not_or] at h
    rw [cons_append, splitInclusive, if_neg (Ne.symm h.1), ih h.2]
    rfl

theorem splitInclusive_flatten (text : List Char) : (splitInclusive text).flatten = text := by
  induction text with
  | nil => rfl
  | cons c text ih =>
    rw [splitInclusive]
    split
    · rw [flatten_cons, ih]
      rfl
    · cases hlines : splitInclusive text with
      | nil =>
        rw [hlines] at ih
        rw [← ih]
        rfl
      | cons line lines =>
        rw [hlines] at ih
        rw [← ih]
        rfl

theorem trimNewlines_line (h : '\n' ∉ line) : trimNewlines line = line := by
  unfold trimNewlines
  have hkeep : line.reverse.dropWhile (fun c => decide (c = '\n')) = line.reverse := by
    cases hreverse : line.reverse with
    | nil => rfl
    | cons c rest =>
      have hmem : c ∈ line := mem_reverse.mp (hreverse ▸ mem_cons_self)
      have hc : c ≠ '\n' := fun heq => h (heq ▸ hmem)
      exact dropWhile_cons_of_neg (by simpa using hc)
  rw [hkeep, reverse_reverse]

theorem trimNewlines_newline (h : '\n' ∉ line) :
    trimNewlines (line ++ ['\n']) = line := by
  have hline := trimNewlines_line h
  unfold trimNewlines at hline ⊢
  rw [reverse_append]
  exact hline

@[elab_as_elim]
theorem lines_induction {motive : List Char → Prop} (nil : motive [])
    (last : ∀ line, '\n' ∉ line → line ≠ [] → motive line)
    (newline : ∀ line rest, '\n' ∉ line → motive rest → motive (line ++ '\n' :: rest))
    (text : List Char) : motive text := by
  induction hlen : text.length using Nat.strong_induction_on generalizing text with
  | _ n ih =>
    by_cases hmem : '\n' ∈ text
    · obtain ⟨line, rest, rfl, hline⟩ := eq_append_cons_of_mem hmem
      have hshorter : rest.length < n := by
        rw [← hlen, length_append, length_cons]
        omega
      exact newline line rest hline (ih rest.length hshorter rest rfl)
    · by_cases hne : text = []
      · subst hne
        exact nil
      · exact last text hmem hne

end DbClinic.Cli
