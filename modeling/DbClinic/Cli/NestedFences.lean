import DbClinic.Cli.MarkdownStream
import DbClinic.Lib.StackPairing

/-!
Fenced blocks inside fenced blocks. The fences of a text are paired with a
stack; where a block has a fence line inside that is as long as its opener, the
opener and the closer are made longer. The lines of the text stay what they are,
up to the lengths of the markers of fence lines.
-/

namespace DbClinic.Cli

open List
open DbClinic.Runtime (trim)

/-- `trim_end_matches('\n').trim_end_matches('\r')`. -/
def trimLineEnd (line : List Char) : List Char :=
  ((trimNewlines line).reverse.dropWhile (· = '\r')).reverse

structure FenceLine where
  char : Char
  len : Nat
  hasInfo : Bool
  indent : Nat
  deriving DecidableEq

def parseFenceLine (line : List Char) : Option FenceLine :=
  let trimmed := trimLineEnd line
  let indent := (trimmed.takeWhile (· = ' ')).length
  if 3 < indent then none
  else
    let rest := trimmed.drop indent
    match rest.head? with
    | none => none
    | some ch =>
      if ch ≠ '`' ∧ ch ≠ '~' then none
      else
        let len := (rest.takeWhile (· = ch)).length
        if len < 3 then none
        else
          let after := rest.drop len
          if ch = '`' ∧ '`' ∈ after then none
          else some ⟨ch, len, decide (trim after ≠ []), indent⟩

structure StackEntry where
  lineIdx : Nat
  fence : FenceLine
  deriving DecidableEq

structure FencePair where
  openerIdx : Nat
  closerIdx : Nat
  innerMax : Nat
  deriving DecidableEq

/-- The longest fence strictly between two lines. -/
def innerMax (fenceInfo : List (Option FenceLine)) (openerIdx closerIdx : Nat) : Nat :=
  (((fenceInfo.take closerIdx).drop (openerIdx + 1)).filterMap
    fun fi => fi.map FenceLine.len).max?.getD 0

/-- The loop of the second pass: `i` is the line, and the last entry of the stack comes first. -/
def pairFrom (fenceInfo : List (Option FenceLine)) : List (Option FenceLine) → (i : Nat) →
    List StackEntry → List FencePair → List FencePair
  | [], _, _, pairs => pairs
  | none :: infos, i, stack, pairs => pairFrom fenceInfo infos (i + 1) stack pairs
  | some fl :: infos, i, stack, pairs =>
    if fl.hasInfo then pairFrom fenceInfo infos (i + 1) (⟨i, fl⟩ :: stack) pairs
    else match stack with
      | [] => pairFrom fenceInfo infos (i + 1) [⟨i, fl⟩] pairs
      | opener :: below =>
        if opener.fence.char = fl.char ∧ opener.fence.len ≤ fl.len then
          pairFrom fenceInfo infos (i + 1) below
            (pairs ++ [⟨opener.lineIdx, i, innerMax fenceInfo opener.lineIdx i⟩])
        else pairFrom fenceInfo infos (i + 1) (⟨i, fl⟩ :: opener :: below) pairs

def pairFences (fenceInfo : List (Option FenceLine)) : List FencePair :=
  pairFrom fenceInfo fenceInfo 0 [] []

structure Rewrite where
  char : Char
  newLen : Nat
  indent : Nat
  deriving DecidableEq

/-- What a pair inserts; the last insertion for a line comes first. Pairs are of
fence lines, so that both are found. -/
def insertRewrites (fenceInfo : List (Option FenceLine)) (rewrites : List (Nat × Rewrite))
    (pair : FencePair) : List (Nat × Rewrite) :=
  match fenceInfo[pair.openerIdx]?.join, fenceInfo[pair.closerIdx]?.join with
  | some openerFl, some closerFl =>
    if openerFl.len ≤ pair.innerMax then
      let newLen := pair.innerMax + 1
      (pair.closerIdx, ⟨closerFl.char, newLen, closerFl.indent⟩) ::
        (pair.openerIdx, ⟨openerFl.char, newLen, openerFl.indent⟩) :: rewrites
    else rewrites
  | _, _ => rewrites

def rewritesOf (fenceInfo : List (Option FenceLine)) : List (Nat × Rewrite) :=
  (pairFences fenceInfo).foldl (insertRewrites fenceInfo) []

def rebuildLine (rewrites : List (Nat × Rewrite)) (i : Nat) (line : List Char) : List Char :=
  match rewrites.lookup i, parseFenceLine line with
  | some rewrite, some fi =>
    let trimmed := trimLineEnd line
    List.replicate rewrite.indent ' ' ++ (List.replicate rewrite.newLen rewrite.char ++
      (trimmed.drop (fi.indent + fi.len) ++ line.drop trimmed.length))
  | _, _ => line

def normalizeNestedFences (markdown : List Char) : List Char :=
  let lines := splitInclusive markdown
  let rewrites := rewritesOf (lines.map parseFenceLine)
  if rewrites = [] then markdown else (lines.mapIdx (rebuildLine rewrites)).flatten

namespace FenceLine

def marker (f : FenceLine) : List Char :=
  List.replicate f.indent ' ' ++ List.replicate f.len f.char

/-- What is read from a line with some text behind its marker. -/
structure Fits (f : FenceLine) (info : List Char) : Prop where
  indent : f.indent ≤ 3
  char : f.char = '`' ∨ f.char = '~'
  len : 3 ≤ f.len
  head : info.head? ≠ some f.char
  plain : f.char = '`' → '`' ∉ info
  hasInfo : f.hasInfo = decide (trim info ≠ [])

/-- The same fence line with a longer or shorter marker. -/
def withLen (f : FenceLine) (len : Nat) : FenceLine := { f with len := len }

@[simp] theorem withLen_len (f : FenceLine) (n : Nat) : (f.withLen n).len = n := rfl

@[simp] theorem withLen_char (f : FenceLine) (n : Nat) : (f.withLen n).char = f.char := rfl

@[simp] theorem withLen_hasInfo (f : FenceLine) (n : Nat) :
    (f.withLen n).hasInfo = f.hasInfo := rfl

@[simp] theorem withLen_self (f : FenceLine) : f.withLen f.len = f := rfl

theorem Fits.withLen {f : FenceLine} {info : List Char} (h : f.Fits info) {n : Nat} (hn : 3 ≤ n) :
    (f.withLen n).Fits info := ⟨h.indent, h.char, hn, h.head, h.plain, h.hasInfo⟩

end FenceLine

section

variable {line info : List Char} {f : FenceLine} {n : Nat}

theorem parseFenceLine_iff : parseFenceLine line = some f ↔
    ∃ info, trimLineEnd line = f.marker ++ info ∧ f.Fits info := by
  unfold parseFenceLine
  dsimp only
  generalize trimLineEnd line = trimmed
  constructor
  · intro h
    split at h
    · cases h
    · rename_i hindent
      split at h
      · cases h
      · rename_i ch hhead
        split at h
        · cases h
        · rename_i hmarker
          split at h
          · cases h
          · rename_i hlen
            split at h
            · cases h
            · rename_i hplain
              cases h
              have hwhole := (run_append_drop trimmed ' ').trans (congrArg _ (run_append_drop
                (trimmed.drop (trimmed.takeWhile (· = ' ')).length) ch))
              rw [← append_assoc] at hwhole
              refine ⟨_, hwhole, by simpa using hindent, by grind, by simpa using hlen,
                head?_drop_run _ _, by grind, rfl⟩
  · rintro ⟨info, rfl, hindent, hchar, hlen, hhead, hplain, hinfo⟩
    have hrun : (f.marker ++ info).takeWhile (· = ' ') = List.replicate f.indent ' ' := by
      rw [FenceLine.marker, append_assoc]
      apply takeWhile_run
      obtain ⟨k, hk⟩ : ∃ k, f.len = k + 1 := ⟨f.len - 1, by omega⟩
      rcases hchar with h | h
      · simp [replicate_succ, h, hk]
      · simp [replicate_succ, h, hk]
    have hdrop : (f.marker ++ info).drop f.indent = List.replicate f.len f.char ++ info := by
      rw [FenceLine.marker, append_assoc]
      exact drop_left' (length_replicate ..)
    have hfirst : (List.replicate f.len f.char ++ info).head? = some f.char := by
      obtain ⟨k, hk⟩ : ∃ k, f.len = k + 1 := ⟨f.len - 1, by omega⟩
      simp [replicate_succ, hk]
    rw [hrun, length_replicate, if_neg (by omega), hdrop, hfirst]
    dsimp only
    rw [takeWhile_run _ hhead, length_replicate, drop_left' (length_replicate ..),
      if_neg (by grind), if_neg (by omega), if_neg (by grind), ← hinfo]

end

section

variable {c : Char} {line line' rest : List Char} {f : FenceLine} {n : Nat}

theorem dropWhile_reverse_append {p : Char → Bool} (h : p c = false) (front rest : List Char) :
    ((front ++ c :: rest).reverse.dropWhile p).reverse =
      front ++ c :: (rest.reverse.dropWhile p).reverse := by
  rw [reverse_append, reverse_cons, append_assoc, singleton_append,
    dropWhile_append]
  split
  · rename_i hempty
    rw [List.isEmpty_iff.mp hempty, dropWhile_cons_of_neg (by simp [h])]
    simp
  · simp

theorem trimLineEnd_append (hn : c ≠ '\n') (hr : c ≠ '\r') (front rest : List Char) :
    trimLineEnd (front ++ c :: rest) = front ++ c :: trimLineEnd rest := by
  unfold trimLineEnd trimNewlines
  rw [dropWhile_reverse_append (decide_eq_false hn), dropWhile_reverse_append (decide_eq_false hr)]

theorem trimLineEnd_begins (line : List Char) : trimLineEnd line <+: line := by
  have hback (p : Char → Bool) (text : List Char) :
      (text.reverse.dropWhile p).reverse <+: text := by
    rw [← reverse_suffix, reverse_reverse]
    exact dropWhile_suffix p
  exact (hback _ _).trans (hback _ _)

namespace FenceLine

theorem not_mem_marker (h : f.char = '`' ∨ f.char = '~') : '\n' ∉ f.marker := by
  intro hmem
  rcases mem_append.mp hmem with hmem | hmem
  · exact absurd (eq_of_mem_replicate hmem) (by decide)
  · rcases h with h | h
    · exact absurd ((eq_of_mem_replicate hmem).trans h) (by decide)
    · exact absurd ((eq_of_mem_replicate hmem).trans h) (by decide)

theorem trimLineEnd_marker (h : f.char = '`' ∨ f.char = '~') (hlen : 3 ≤ f.len)
    (rest : List Char) : trimLineEnd (f.marker ++ rest) = f.marker ++ trimLineEnd rest := by
  have hmarker : f.marker = List.replicate f.indent ' ' ++ List.replicate (f.len - 1) f.char ++
      [f.char] := by
    rw [append_assoc, ← replicate_succ', Nat.sub_add_cancel (by omega)]
    rfl
  have hchar : f.char ≠ '\n' ∧ f.char ≠ '\r' := by
    rcases h with h | h
    · rw [h]
      decide
    · rw [h]
      decide
  rw [hmarker, append_assoc _ [f.char] rest, singleton_append,
    trimLineEnd_append hchar.1 hchar.2]
  simp

end FenceLine

theorem parseFenceLine_marker : parseFenceLine line = some f ↔
    ∃ rest, line = f.marker ++ rest ∧ f.Fits (trimLineEnd rest) := by
  rw [parseFenceLine_iff]
  constructor
  · rintro ⟨info, htrimmed, hfits⟩
    obtain ⟨ending, hline⟩ := trimLineEnd_begins line
    rw [htrimmed, append_assoc] at hline
    refine ⟨info ++ ending, hline.symm, ?_⟩
    rw [← hline, FenceLine.trimLineEnd_marker hfits.char hfits.len,
      append_cancel_left_eq] at htrimmed
    rwa [htrimmed]
  · rintro ⟨rest, rfl, hfits⟩
    exact ⟨trimLineEnd rest, FenceLine.trimLineEnd_marker hfits.char hfits.len rest, hfits⟩

/-- A line is the same, or a fence line whose marker has some other length. -/
def SameUpToLength (line line' : List Char) : Prop :=
  line' = line ∨ ∃ f n rest, parseFenceLine line = some f ∧
    parseFenceLine line' = some (f.withLen n) ∧
    line = f.marker ++ rest ∧ line' = (f.withLen n).marker ++ rest

theorem SameUpToLength.newline (h : SameUpToLength (line ++ ['\n']) line') (hline : '\n' ∉ line) :
    ∃ body, line' = body ++ ['\n'] ∧ '\n' ∉ body := by
  rcases h with rfl | ⟨f, n, rest, hparse, -, hsplit, rfl⟩
  · exact ⟨line, rfl, hline⟩
  · obtain ⟨_, -, hfits⟩ := parseFenceLine_marker.mp hparse
    cases rest using List.reverseRecOn with
    | nil =>
      rw [append_nil] at hsplit
      have hmem : '\n' ∈ f.marker := by simp [← hsplit]
      exact absurd hmem (FenceLine.not_mem_marker hfits.char)
    | append_singleton rest c =>
      rw [← append_assoc] at hsplit
      obtain ⟨rfl, hc⟩ := append_inj' hsplit rfl
      cases hc
      rw [mem_append, not_or] at hline
      refine ⟨(f.withLen n).marker ++ rest, by simp, ?_⟩
      rw [mem_append, not_or]
      exact ⟨FenceLine.not_mem_marker hfits.char, hline.2⟩

theorem SameUpToLength.last (h : SameUpToLength line line') (hline : '\n' ∉ line)
    (hne : line ≠ []) : '\n' ∉ line' ∧ line' ≠ [] := by
  rcases h with rfl | ⟨f, n, rest, -, hparse, rfl, rfl⟩
  · exact ⟨hline, hne⟩
  · obtain ⟨_, -, hfits⟩ := parseFenceLine_marker.mp hparse
    rw [mem_append, not_or] at hline ⊢
    refine ⟨⟨FenceLine.not_mem_marker hfits.char, hline.2⟩, fun hnil => ?_⟩
    have hlen := congrArg List.length hnil
    have hlong := hfits.len
    simp only [FenceLine.marker, length_append, length_replicate, length_nil]
      at hlen
    omega

theorem splitInclusive_mapIdx {g : Nat → List Char → List Char} {text : List Char}
    (h : ∀ i line, (splitInclusive text)[i]? = some line → SameUpToLength line (g i line)) :
    splitInclusive ((splitInclusive text).mapIdx g).flatten = (splitInclusive text).mapIdx g := by
  induction text using lines_induction generalizing g with
  | nil => rfl
  | last line hline hne =>
    rw [splitInclusive_line hline hne] at h ⊢
    obtain ⟨hline', hne'⟩ := (h 0 line rfl).last hline hne
    simpa using splitInclusive_line hline' hne'
  | newline line rest hline ih =>
    rw [splitInclusive_newline hline] at h ⊢
    obtain ⟨body, hbody, hbody'⟩ := (h 0 _ rfl).newline hline
    have hrest := ih (g := fun i => g (i + 1)) fun i line hget => h (i + 1) line hget
    rw [mapIdx_cons, flatten_cons, hbody, append_assoc, singleton_append,
      splitInclusive_newline hbody']
    exact congrArg _ hrest

end

end DbClinic.Cli
