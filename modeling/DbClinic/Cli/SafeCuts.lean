import DbClinic.Cli.MarkdownStream

/-!
Where streamed markdown is cut. No character is lost or doubled. A cut is made
behind a line that ends a block, or inside the last line of what has come in, if
this line ends a block as far as it goes. The cuts inside a line are safe if the
whole line ends the block as well, and the rest of the line opens what the whole
line does.
-/

namespace DbClinic.Cli

open List
open DbClinic.Runtime (isWhitespace trim trim_eq_nil trim_of_blank)

section

variable {line : List Char} {opener : FenceMarker}

theorem closes_iff : lineClosesFence line opener = true ↔
    ∃ indent length more, line = List.replicate indent ' ' ++
        (List.replicate length opener.character ++ more) ∧
      indent ≤ 3 ∧ opener.length ≤ length ∧ ∀ c ∈ more, c = ' ' ∨ c = '\t' := by
  unfold lineClosesFence
  dsimp only
  constructor
  · intro h
    split at h
    · cases h
    · rename_i hindent
      split at h
      · cases h
      · rename_i hlen
        rw [all_eq_true] at h
        refine ⟨_, _, _, (run_append_drop line ' ').trans (congrArg _ (run_append_drop _
          opener.character)), Nat.le_of_not_lt hindent, Nat.le_of_not_lt hlen, ?_⟩
        intro c hc
        simpa using h c hc
  · rintro ⟨indent, length, more, rfl, hindent, hlen, hmore⟩
    have hlong := opener.long
    have hmarker := opener.isMarker
    have hrun : (List.replicate indent ' ' ++ (List.replicate length opener.character ++
        more)).takeWhile (· = ' ') = List.replicate indent ' ' := by
      apply takeWhile_run
      obtain ⟨k, rfl⟩ : ∃ k, length = k + 1 := ⟨length - 1, by omega⟩
      rcases hmarker with h | h
      · simp [replicate_succ, h]
      · simp [replicate_succ, h]
    have hfence : (List.replicate length opener.character ++ more).takeWhile
        (· = opener.character) = List.replicate length opener.character := by
      apply takeWhile_run
      intro hhead
      have hblank := hmore _ (mem_of_mem_head? hhead)
      rcases hmarker with h | h
      · simp [h] at hblank
      · simp [h] at hblank
    rw [hrun, length_replicate, if_neg (by omega), drop_left' (length_replicate ..),
      hfence, length_replicate, if_neg (by omega), drop_left' (length_replicate ..)]
    simpa using hmore

theorem mem_of_closes (h : lineClosesFence line opener = true) {c : Char} (hc : c ∈ line) :
    c = opener.character ∨ c = ' ' ∨ c = '\t' := by
  obtain ⟨indent, length, more, rfl, -, -, hmore⟩ := closes_iff.mp h
  rcases mem_append.mp hc with hc | hc
  · exact .inr (.inl (eq_of_mem_replicate hc))
  · rcases mem_append.mp hc with hc | hc
    · exact .inl (eq_of_mem_replicate hc)
    · exact .inr (hmore c hc)

theorem closes_append (h : lineClosesFence line opener = true) {more : List Char}
    (hmore : ∀ c ∈ more, c = ' ' ∨ c = '\t') : lineClosesFence (line ++ more) opener = true := by
  obtain ⟨indent, length, blanks, rfl, hindent, hlen, hblanks⟩ := closes_iff.mp h
  refine closes_iff.mpr ⟨indent, length, blanks ++ more, by simp, hindent, hlen, ?_⟩
  intro c hc
  rcases mem_append.mp hc with hc | hc
  · exact hblanks c hc
  · exact hmore c hc

theorem parseFenceOpener_blank (h : trim line = []) : parseFenceOpener line = none := by
  have hblank := trim_eq_nil h
  unfold parseFenceOpener
  dsimp only
  split
  · rfl
  · split
    · rfl
    · rename_i character hhead
      have hmem : character ∈ line := mem_of_mem_drop (mem_of_mem_head? hhead)
      have hspace := hblank character hmem
      rw [dif_neg]
      rintro (rfl | rfl)
      · exact absurd hspace (by decide)
      · exact absurd hspace (by decide)

end

def endsBlock (openFence : Option FenceMarker) (line : List Char) : Bool :=
  match openFence with
  | some opener => lineClosesFence line opener
  | none => trim line = []

variable {line : List Char} {openFence : Option FenceMarker}

theorem afterLine_of_endsBlock (h : endsBlock openFence line = true) :
    afterLine openFence line = none := by
  cases openFence with
  | none => exact parseFenceOpener_blank (of_decide_eq_true h)
  | some opener => exact if_pos h

theorem boundaryFrom_cons (line : List Char) (lines : List (List Char)) (offset : Nat)
    (openFence : Option FenceMarker) (lastBoundary : Option Nat) :
    boundaryFrom (line :: lines) offset openFence lastBoundary =
      boundaryFrom lines (offset + line.length) (afterLine openFence (trimNewlines line))
        (if endsBlock openFence (trimNewlines line) then some (offset + line.length)
        else lastBoundary) := by
  cases openFence with
  | some opener =>
    cases hcloses : lineClosesFence (trimNewlines line) opener with
    | true => simp [boundaryFrom, afterLine, endsBlock, hcloses]
    | false => simp [boundaryFrom, afterLine, endsBlock, hcloses]
  | none =>
    cases hopener : parseFenceOpener (trimNewlines line) with
    | none =>
      simp only [boundaryFrom, afterLine, endsBlock, hopener, decide_eq_true_eq]
      by_cases hblank : trim (trimNewlines line) = []
      · rw [if_pos hblank, if_pos hblank]
      · rw [if_neg hblank, if_neg hblank]
    | some opener =>
      have hfull : trim (trimNewlines line) ≠ [] := fun hblank => by
        rw [parseFenceOpener_blank hblank] at hopener
        cases hopener
      simp [boundaryFrom, afterLine, endsBlock, hopener, hfull]

/-- A last line that has begun, and ends a block as far as it goes. -/
def LineScan.EndsBlock (s : LineScan) : Prop := s.line ≠ [] ∧ endsBlock s.openFence s.line = true

instance (s : LineScan) : Decidable s.EndsBlock :=
  inferInstanceAs (Decidable (s.line ≠ [] ∧ endsBlock s.openFence s.line = true))

theorem boundaryFrom_some {text : List Char} {offset split : Nat} {lastBoundary : Option Nat}
    (h : boundaryFrom (splitInclusive text) offset openFence lastBoundary = some split) :
    lastBoundary = some split ∨ ∃ front back, text = front ++ back ∧ front ≠ [] ∧
      split = offset + front.length ∧
      (LineScan.feedAll ⟨openFence, []⟩ front = ⟨none, []⟩ ∨
        back = [] ∧ (LineScan.feedAll ⟨openFence, []⟩ front).EndsBlock) := by
  induction text using lines_induction generalizing offset openFence lastBoundary with
  | nil => exact .inl h
  | last line hline hne =>
    rw [splitInclusive_line hline hne, boundaryFrom_cons, trimNewlines_line hline] at h
    split at h
    · rename_i hends
      cases h
      refine .inr ⟨line, [], (append_nil line).symm, hne, rfl, .inr ⟨rfl, ?_⟩⟩
      rw [LineScan.feedAll_line _ hline]
      exact ⟨hne, hends⟩
    · exact .inl h
  | newline line rest hline ih =>
    rw [splitInclusive_newline hline, boundaryFrom_cons, trimNewlines_newline hline] at h
    have hfeed (more : List Char) : LineScan.feedAll ⟨openFence, []⟩ (line ++ '\n' :: more) =
        LineScan.feedAll ⟨afterLine openFence line, []⟩ more :=
      LineScan.feedAll_newline _ hline more
    rcases ih h with hlast | ⟨front, back, rfl, hne, hsplit, hfront⟩
    · split at hlast
      · rename_i hends
        cases hlast
        refine .inr ⟨line ++ ['\n'], rest, by simp, by simp, rfl, .inl ?_⟩
        rw [hfeed, afterLine_of_endsBlock hends]
        rfl
      · exact .inl hlast
    · refine .inr ⟨line ++ '\n' :: front, back, by simp, by simp, ?_, ?_⟩
      · rw [hsplit]
        simp only [length_append, length_cons, length_nil]
        omega
      · rw [hfeed]
        exact hfront

/-- What is before a cut ends behind a line after which no fence is open, or in a
line that ends a block so far, and does so as a whole. -/
def Aligned (before rest : List Char) : Prop :=
  scanText before = ⟨none, []⟩ ∨ (scanText before).EndsBlock ∧
    afterLine (scanText before).openFence ((scanText before).line ++ lineRest rest) =
      parseFenceOpener (lineRest rest) ∧
    ∀ opener ∈ (scanText before).openFence,
      lineClosesFence ((scanText before).line ++ lineRest rest) opener = true

/-- If the last line of what has come in ends a block as far as it goes, then the
rest of this line opens what the whole line does, and a fence that is closed so
far is closed by the whole line. -/
def CutSafe (before rest : List Char) : Prop :=
  (scanText before).EndsBlock →
    afterLine (scanText before).openFence ((scanText before).line ++ lineRest rest) =
      parseFenceOpener (lineRest rest) ∧
    ∀ opener ∈ (scanText before).openFence,
      lineClosesFence ((scanText before).line ++ lineRest rest) opener = true

instance (before rest : List Char) : Decidable (CutSafe before rest) :=
  inferInstanceAs (Decidable ((scanText before).EndsBlock →
    afterLine (scanText before).openFence ((scanText before).line ++ lineRest rest) =
      parseFenceOpener (lineRest rest) ∧
    ∀ opener ∈ (scanText before).openFence,
      lineClosesFence ((scanText before).line ++ lineRest rest) opener = true))

theorem lineRest_line (h : '\n' ∉ line) (rest : List Char) :
    lineRest (line ++ rest) = line ++ lineRest rest := by
  apply takeWhile_append_of_pos
  intro c hc
  exact decide_eq_true fun heq => h (heq ▸ hc)

theorem lineRest_newline (h : '\n' ∉ line) (rest : List Char) :
    lineRest (line ++ '\n' :: rest) = line := by
  rw [lineRest_line h, lineRest]
  simp

section

variable {before front back rest : List Char}

theorem Aligned.not_fenceOpenAt (h : Aligned before rest) : ¬FenceOpenAt before rest := by
  rintro ⟨opener, hopen, hline⟩
  rcases h with hnone | ⟨hends, -, hcloses⟩
  · rw [hnone] at hopen
    cases hopen
  · rcases hline with hempty | hnot
    · exact hends.1 hempty
    · rw [hcloses opener hopen] at hnot
      cases hnot

theorem Aligned.scanText_append (h : Aligned before (front ++ rest)) (hfront : '\n' ∈ front) :
    scanText (before ++ front) = scanText front := by
  obtain ⟨line, tail, rfl, hline⟩ := eq_append_cons_of_mem hfront
  rw [DbClinic.Cli.scanText_append]
  rcases h with hnone | ⟨-, hafter, -⟩
  · rw [hnone]
    rfl
  · rw [append_assoc, cons_append, lineRest_newline hline] at hafter
    rw [LineScan.feedAll_newline _ hline, hafter, scanText, LineScan.feedAll_newline _ hline]
    rfl

theorem Aligned.endsBlock_line (h : Aligned before (front ++ rest)) (hfront : '\n' ∉ front)
    (hne : front ≠ []) (hblank : trim front = []) : (scanText (before ++ front)).EndsBlock := by
  rw [DbClinic.Cli.scanText_append, LineScan.feedAll_line _ hfront]
  rcases h with hnone | ⟨⟨hline, hends⟩, -, hcloses⟩
  · rw [hnone]
    exact ⟨hne, decide_eq_true hblank⟩
  · refine ⟨by simp [hne], ?_⟩
    have hspace := trim_eq_nil hblank
    generalize scanText before = s at hline hends hcloses
    obtain ⟨openFence, line⟩ := s
    cases openFence with
    | none =>
      have hline := trim_eq_nil (of_decide_eq_true hends)
      apply decide_eq_true
      apply trim_of_blank
      intro c hc
      rcases mem_append.mp hc with hc | hc
      · exact hline c hc
      · exact hspace c hc
    | some opener =>
      refine closes_append hends fun c hc => ?_
      have hwhole := hcloses opener rfl
      rw [lineRest_line hfront] at hwhole
      rcases mem_of_closes hwhole (c := c) (by simp [hc]) with rfl | hc'
      · rcases opener.isMarker with hmarker | hmarker
        · exact absurd (hspace _ hc) (by rw [hmarker]; decide)
        · exact absurd (hspace _ hc) (by rw [hmarker]; decide)
      · exact hc'

theorem Aligned.cut {split : Nat} (h : Aligned before (front ++ rest))
    (hsafe : CutSafe (before ++ front) rest) (hsplit : findStreamSafeBoundary front = some split) :
    Aligned (before ++ front.take split) (front.drop split ++ rest) := by
  rcases boundaryFrom_some hsplit with hlast | ⟨cut, kept, rfl, hne, hlen, hcut⟩
  · cases hlast
  · rw [Nat.zero_add] at hlen
    subst hlen
    rw [take_left, drop_left]
    rcases hcut with hscan | ⟨rfl, hends⟩
    · left
      have hmem : '\n' ∈ cut := by
        by_contra hno
        rw [LineScan.feedAll_line _ hno] at hscan
        exact hne (congrArg LineScan.line hscan)
      rw [append_assoc] at h
      exact (h.scanText_append hmem).trans hscan
    · rw [append_nil] at h hsafe
      have hblock : (scanText (before ++ cut)).EndsBlock := by
        by_cases hmem : '\n' ∈ cut
        · rw [h.scanText_append hmem]
          exact hends
        · rw [LineScan.feedAll_line _ hmem] at hends
          exact h.endsBlock_line hmem hne (of_decide_eq_true hends.2)
      exact .inr ⟨hblock, hsafe hblock⟩

end

namespace MarkdownStreamState

theorem push_append (m : MarkdownStreamState) (delta : List Char) :
    (m.push delta).1.toList.flatten ++ (m.push delta).2.pending = m.pending ++ delta := by
  unfold push
  cases hsplit : findStreamSafeBoundary (m.pending ++ delta) with
  | none => simp [hsplit]
  | some split => simp [hsplit]

theorem pushAll_append (m : MarkdownStreamState) (deltas : List (List Char)) :
    (m.pushAll deltas).1.flatten ++ (m.pushAll deltas).2.pending =
      m.pending ++ deltas.flatten := by
  induction deltas generalizing m with
  | nil => simp [pushAll]
  | cons delta deltas ih =>
    have hpush := m.push_append delta
    rw [pushAll, flatten_append, append_assoc, ih, ← append_assoc, hpush]
    simp

variable {m : MarkdownStreamState} {before rest : List Char}

theorem push_aligned {delta : List Char} (h : Aligned before (m.pending ++ delta ++ rest))
    (hsafe : CutSafe (before ++ (m.pending ++ delta)) rest) :
    Aligned (before ++ (m.push delta).1.toList.flatten) ((m.push delta).2.pending ++ rest) := by
  unfold push
  cases hsplit : findStreamSafeBoundary (m.pending ++ delta) with
  | none => simpa [hsplit] using h
  | some split => simpa [hsplit] using h.cut hsafe hsplit

theorem pushAll_aligned {deltas : List (List Char)}
    (h : Aligned before (m.pending ++ deltas.flatten))
    (hsafe : ∀ arrived coming, deltas = arrived ++ coming →
      CutSafe (before ++ (m.pending ++ arrived.flatten)) coming.flatten)
    {front back : List (List Char)} (hsegments : (m.pushAll deltas).1 = front ++ back)
    (hrest : m.pending ++ deltas.flatten = front.flatten ++ rest) :
    Aligned (before ++ front.flatten) rest := by
  induction deltas generalizing m before front rest with
  | nil =>
    obtain ⟨rfl, rfl⟩ := append_eq_nil_iff.mp hsegments.symm
    have hall : m.pending = rest := by simpa using hrest
    subst hall
    simpa using h
  | cons delta deltas ih =>
    have hpush := m.push_append delta
    have hnext : Aligned (before ++ (m.push delta).1.toList.flatten)
        ((m.push delta).2.pending ++ deltas.flatten) :=
      push_aligned (by simpa using h) (by simpa using hsafe [delta] deltas rfl)
    have hcoming : ∀ arrived coming, deltas = arrived ++ coming →
        CutSafe (before ++ (m.push delta).1.toList.flatten ++
          ((m.push delta).2.pending ++ arrived.flatten)) coming.flatten := by
      intro arrived coming hdeltas
      have hend := hsafe (delta :: arrived) coming (by rw [hdeltas, cons_append])
      rw [flatten_cons, ← append_assoc m.pending, ← hpush] at hend
      simpa using hend
    rw [flatten_cons, ← append_assoc, ← hpush] at hrest
    rw [pushAll] at hsegments
    cases hpushed : (m.push delta).1 with
    | none =>
      simp only [hpushed, Option.toList_none, nil_append, flatten_nil,
        append_nil] at hnext hcoming hsegments hrest
      exact ih hnext hcoming hsegments hrest
    | some segment =>
      simp only [hpushed, Option.toList_some, flatten_singleton] at hnext hcoming hrest
      simp only [hpushed, Option.toList_some, singleton_append] at hsegments
      cases front with
      | nil =>
        rw [flatten_cons, ← append_assoc, ← hpush, hpushed] at h
        simp only [flatten_nil, append_nil, nil_append] at hrest ⊢
        rw [← hrest]
        simpa using h
      | cons first front =>
        obtain ⟨rfl, hothers⟩ := List.cons.inj hsegments
        rw [flatten_cons, append_assoc, append_assoc,
          append_cancel_left_eq] at hrest
        have hlater := ih hnext hcoming hothers hrest
        rwa [append_assoc] at hlater

/-- What a whole stream hands to the renderer. -/
def segments (deltas : List (List Char)) : List (List Char) :=
  let pushed := pushAll ⟨[]⟩ deltas
  pushed.1 ++ pushed.2.flush.1.toList

def DeltasSafe (deltas : List (List Char)) : Prop :=
  ∀ arrived coming, deltas = arrived ++ coming → CutSafe arrived.flatten coming.flatten

instance (deltas : List (List Char)) : Decidable (DeltasSafe deltas) :=
  decidable_of_iff (∀ n < deltas.length + 1,
    CutSafe (deltas.take n).flatten (deltas.drop n).flatten) <| by
  constructor
  · rintro h arrived coming rfl
    have hend := h arrived.length (by simp)
    rwa [take_left, drop_left] at hend
  · intro h n _
    exact h _ _ (take_append_drop n deltas).symm

/-- The segments are the text, up to blanks at its end; and where every end of a
delta is safe to cut at, no fence is open where a segment that was pushed ends. -/
theorem segments_safe (deltas : List (List Char)) :
    (∃ remainder, trim remainder = [] ∧ deltas.flatten = (segments deltas).flatten ++ remainder) ∧
      (DeltasSafe deltas → ∀ front back rest, (pushAll ⟨[]⟩ deltas).1 = front ++ back →
        deltas.flatten = front.flatten ++ rest → ¬FenceOpenAt front.flatten rest) := by
  constructor
  · have hall := pushAll_append ⟨[]⟩ deltas
    rw [nil_append] at hall
    rw [← hall]
    unfold segments flush
    dsimp only
    by_cases hblank : trim (pushAll ⟨[]⟩ deltas).2.pending = []
    · exact ⟨(pushAll ⟨[]⟩ deltas).2.pending, hblank, by simp [hblank]⟩
    · exact ⟨[], rfl, by simp [hblank]⟩
  · intro hsafe front back rest hsegments hrest
    have hstart : Aligned [] ((⟨[]⟩ : MarkdownStreamState).pending ++ deltas.flatten) := .inl rfl
    have haligned : Aligned ([] ++ front.flatten) rest :=
      pushAll_aligned hstart hsafe hsegments hrest
    exact haligned.not_fenceOpenAt

/-- A fence that comes in pieces: no fence is open behind its closing line, which
is cut before its last blanks. -/
theorem split_fence_safe : DeltasSafe ["```sh\nls\n``".toList, "`".toList, " \nend".toList] ∧
    ¬FenceOpenAt "```sh\nls\n```".toList " \nend".toList := by
  have hsafe : DeltasSafe ["```sh\nls\n``".toList, "`".toList, " \nend".toList] := by
    decide +kernel
  exact ⟨hsafe, (segments_safe ["```sh\nls\n``".toList, "`".toList, " \nend".toList]).2 hsafe
    ["```sh\nls\n```".toList] [" \n".toList] " \nend".toList (by decide +kernel)
    (by decide +kernel)⟩

/-- A line that comes in behind its first three backticks, and does not close the
fence as a whole, is cut there; the next cut is inside the fence. -/
theorem unfinished_line_unsafe : ¬∀ deltas : List (List Char),
    (∃ remainder, trim remainder = [] ∧ deltas.flatten = (segments deltas).flatten ++ remainder) ∧
      ∀ front back rest, (pushAll ⟨[]⟩ deltas).1 = front ++ back →
        deltas.flatten = front.flatten ++ rest → ¬FenceOpenAt front.flatten rest := by
  intro h
  apply (h ["```\nls\n```".toList, "x\n\nend".toList]).2 ["```\nls\n```".toList, "x\n\n".toList] []
    "end".toList (by decide +kernel) (by decide +kernel)
  refine ⟨⟨'`', 3, .inl rfl, Nat.le_refl 3⟩, by decide +kernel, .inl (by decide +kernel)⟩

end MarkdownStreamState

end DbClinic.Cli
