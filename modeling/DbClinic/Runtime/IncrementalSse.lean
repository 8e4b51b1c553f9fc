import DbClinic.Lib.Framing
import DbClinic.Mcp.Framing

/-!
Server-sent events that come in chunks. The lines that a chunk completes are handled at
once, a line that is not complete and the fields of an event that is not complete wait.
The events are those of the blocks of lines between blank lines, however the text is cut.
-/

namespace DbClinic.Runtime

open List
open Mcp (parseUsize)

structure SseEvent where
  event : Option (List Char)
  data : List Char
  id : Option (List Char)
  retry : Option Nat
  deriving DecidableEq

structure IncrementalSseParser where
  buffer : List Char
  eventName : Option (List Char)
  dataLines : List (List Char)
  id : Option (List Char)
  retry : Option Nat
  deriving DecidableEq

namespace IncrementalSseParser

def new : IncrementalSseParser := ⟨[], none, [], none, none⟩

/-- A line is cut off at its line feed. -/
def lineFraming : Framing Char where
  next := splitOnce ['\n']
  cuts := by
    intro buffer frame rest h
    exact ⟨frame ++ ['\n'], by simp, splitOnce_eq h⟩

/-- One carriage return before the line feed belongs to the line end. -/
def dropReturn (line : List Char) : List Char := (stripSuffix ['\r'] line).getD line

/-- `trim_end_matches('\r')`. -/
def trimReturns (line : List Char) : List Char := (line.reverse.dropWhile (· = '\r')).reverse

/-- `value.parse::<u64>().ok()`. -/
def parseU64 (value : List Char) : Option Nat := (parseUsize value).toOption

/-- `join("\n")`. -/
def joinLines (lines : List (List Char)) : List Char := ['\n'].intercalate lines

variable (p : IncrementalSseParser)

def takeEvent : IncrementalSseParser × Option SseEvent :=
  if p.dataLines = [] ∧ p.eventName = none ∧ p.id = none ∧ p.retry = none then (p, none)
  else
    ({ p with eventName := none, dataLines := [], id := none, retry := none },
      some ⟨p.eventName, joinLines p.dataLines, p.id, p.retry⟩)

/-- The field of a line and its value, without one blank in front. -/
def splitField (line : List Char) : List Char × List Char :=
  match splitOnce [':'] line with
  | none => (line, [])
  | some (field, value) => (field, (stripPrefix [' '] value).getD value)

def setField (field value : List Char) : IncrementalSseParser :=
  if field = "event".toList then { p with eventName := some value }
  else if field = "data".toList then { p with dataLines := p.dataLines ++ [value] }
  else if field = "id".toList then { p with id := some value }
  else if field = "retry".toList then { p with retry := parseU64 value }
  else p

def processLine (line : List Char) : IncrementalSseParser × List SseEvent :=
  if line = [] then (p.takeEvent.1, p.takeEvent.2.toList)
  else if line.head? = some ':' then (p, [])
  else (p.setField (splitField line).1 (splitField line).2, [])

def processLines (p : IncrementalSseParser) :
    List (List Char) → IncrementalSseParser × List SseEvent
  | [] => (p, [])
  | line :: lines =>
    let first := p.processLine line
    let others := processLines first.1 lines
    (others.1, first.2 ++ others.2)

theorem processLines_singleton (line : List Char) :
    processLines p [line] = p.processLine line := by
  simp [processLines]

def pushChunk (chunk : List Char) : IncrementalSseParser × List SseEvent :=
  let cut := lineFraming.drain (p.buffer ++ chunk)
  processLines { p with buffer := cut.2 } (cut.1.map dropReturn)

def finish : IncrementalSseParser × List SseEvent :=
  let flushed :=
    if p.buffer = [] then (p, [])
    else processLine { p with buffer := [] } (trimReturns p.buffer)
  let taken := flushed.1.takeEvent
  (taken.1, flushed.2 ++ taken.2.toList)

def parse (p : IncrementalSseParser) : List (List Char) → List SseEvent
  | [] => p.finish.2
  | chunk :: chunks => (p.pushChunk chunk).2 ++ parse (p.pushChunk chunk).1 chunks

end IncrementalSseParser

namespace EventStream

open IncrementalSseParser

/-- The lines of a text. What follows the last line feed is a line if it is not empty. -/
def linesOf (text : List Char) : List (List Char) :=
  let parts := text.splitOnP (· = '\n')
  let last := parts.getLast?.getD []
  parts.dropLast.map dropReturn ++ if last = [] then [] else [trimReturns last]

def isBlank (line : List Char) : Bool := line = []

def blocks (text : List Char) : List (List (List Char)) := (linesOf text).splitOnP isBlank

def valueFor (field line : List Char) : Option (List Char) :=
  if line.head? = some ':' then none
  else if (splitField line).1 = field then some (splitField line).2
  else none

def values (field : String) (block : List (List Char)) : List (List Char) :=
  block.filterMap (valueFor field.toList)

def retryOf (block : List (List Char)) : Option Nat :=
  (values "retry" block).getLast?.bind parseU64

def blockEvent (block : List (List Char)) : Option SseEvent :=
  if values "data" block = [] ∧ values "event" block = [] ∧ values "id" block = [] ∧
      retryOf block = none then none
  else some {
    event := (values "event" block).getLast?
    data := joinLines (values "data" block)
    id := (values "id" block).getLast?
    retry := retryOf block }

def parserAfter (buffer : List Char) (block : List (List Char)) : IncrementalSseParser where
  buffer := buffer
  eventName := (values "event" block).getLast?
  dataLines := values "data" block
  id := (values "id" block).getLast?
  retry := retryOf block

theorem values_append (field : String) (block more : List (List Char)) :
    values field (block ++ more) = values field block ++ values field more :=
  filterMap_append

theorem takeEvent_parserAfter (buffer : List Char) (block : List (List Char)) :
    (parserAfter buffer block).takeEvent = (parserAfter buffer [], blockEvent block) := by
  by_cases h : values "data" block = [] ∧ values "event" block = [] ∧ values "id" block = [] ∧
      retryOf block = none
  · obtain ⟨hdata, hevent, hid, hretry⟩ := h
    have hnone : blockEvent block = none := if_pos ⟨hdata, hevent, hid, hretry⟩
    have hempty : parserAfter buffer block = parserAfter buffer [] := by
      unfold parserAfter
      rw [hdata, hevent, hid, hretry]
      rfl
    rw [hnone, hempty]
    exact if_pos ⟨rfl, rfl, rfl, rfl⟩
  · unfold takeEvent blockEvent
    rw [if_neg h, if_neg]
    · rfl
    · simpa [parserAfter] using h

theorem processLine_blank (buffer : List Char) (block : List (List Char)) :
    (parserAfter buffer block).processLine [] =
      (parserAfter buffer [], (blockEvent block).toList) := by
  unfold processLine
  rw [if_pos rfl, takeEvent_parserAfter]

variable {block : List (List Char)} {line : List Char}

theorem processLine_parserAfter (buffer : List Char) (block : List (List Char)) (h : line ≠ []) :
    (parserAfter buffer block).processLine line = (parserAfter buffer (block ++ [line]), []) := by
  unfold processLine
  rw [if_neg h]
  by_cases hcomment : line.head? = some ':'
  · rw [if_pos hcomment]
    have hval (field : String) : values field [line] = [] := by
      simp [values, valueFor, hcomment]
    simp [parserAfter, values_append, hval, retryOf]
  · rw [if_neg hcomment]
    have hval (field : String) : values field [line] =
        if (splitField line).1 = field.toList then [(splitField line).2] else [] := by
      unfold values valueFor
      rw [filterMap_cons, if_neg hcomment]
      split <;> simp_all
    unfold setField
    split
    · rename_i hfield
      simp [parserAfter, values_append, hval, retryOf, hfield]
    · split
      · rename_i hfield
        simp [parserAfter, values_append, hval, retryOf, hfield]
      · split
        · rename_i hfield
          simp [parserAfter, values_append, hval, retryOf, hfield]
        · split
          · rename_i hfield
            simp [parserAfter, values_append, hval, retryOf, hfield]
          · simp_all [parserAfter, values_append, retryOf]

def Open (block : List (List Char)) : Prop := ∀ line ∈ block, isBlank line = false

def eventsOfLines (lines : List (List Char)) : List SseEvent :=
  (lines.splitOnP isBlank).filterMap blockEvent

theorem eventsOfLines_open (h : Open block) :
    eventsOfLines block = (blockEvent block).toList := by
  unfold eventsOfLines
  rw [splitOnP_eq_singleton h]
  cases hevent : blockEvent block <;> simp [hevent]

theorem processLines_parserAfter (buffer : List Char) (hblock : Open block)
    (lines : List (List Char)) :
    ∃ last events, Open last ∧
      processLines (parserAfter buffer block) lines = (parserAfter buffer last, events) ∧
      ∀ more, eventsOfLines (block ++ lines ++ more) = events ++ eventsOfLines (last ++ more) := by
  induction lines generalizing block with
  | nil => exact ⟨block, [], hblock, rfl, fun more => by simp⟩
  | cons line lines ih =>
    by_cases hblank : line = []
    · subst hblank
      have hnone : Open [] := fun line hline => absurd hline not_mem_nil
      obtain ⟨last, events, hlast, hproc, hevents⟩ := ih hnone
      refine ⟨last, (blockEvent block).toList ++ events, hlast, ?_, ?_⟩
      · unfold processLines
        rw [processLine_blank]
        dsimp only
        rw [hproc]
      · intro more
        have hsplit : (block ++ [] :: lines ++ more).splitOnP isBlank =
            block :: (lines ++ more).splitOnP isBlank := by
          rw [append_assoc, cons_append]
          exact splitOnP_append_cons_of_forall_mem hblock [] rfl _
        have hfirst : eventsOfLines (block ++ [] :: lines ++ more) =
            (blockEvent block).toList ++ eventsOfLines (lines ++ more) := by
          unfold eventsOfLines
          rw [hsplit]
          cases hevent : blockEvent block <;> simp [hevent]
        rw [hfirst, append_assoc]
        exact congrArg _ (hevents more)
    · have hlonger : Open (block ++ [line]) := by
        intro other hother
        rcases mem_append.mp hother with hother | hother
        · exact hblock other hother
        · rw [mem_singleton.mp hother]
          exact decide_eq_false hblank
      obtain ⟨last, events, hlast, hproc, hevents⟩ := ih hlonger
      refine ⟨last, events, hlast, ?_, ?_⟩
      · unfold processLines
        rw [processLine_parserAfter buffer block hblank]
        dsimp only
        rw [hproc, nil_append]
      · intro more
        rw [← hevents more]
        simp

/-- What is left at the end is a line if it is not empty. -/
def lastLine (rest : List Char) : List (List Char) := if rest = [] then [] else [trimReturns rest]

theorem linesOf_eq_drain (text : List Char) :
    linesOf text = (lineFraming.drain text).1.map dropReturn ++
      lastLine (lineFraming.drain text).2 := by
  induction hlen : text.length using Nat.strong_induction_on generalizing text with
  | _ n ih =>
    cases hnext : lineFraming.next text with
    | none =>
      have hnot : ∀ c ∈ text, decide (c = '\n') = false := by
        intro c hc
        apply decide_eq_false
        rintro rfl
        obtain ⟨front, back, rfl⟩ := append_of_mem hc
        exact splitOnce_eq_none_iff.mp hnext ⟨front, back, by simp⟩
      rw [Framing.drain_none _ hnext]
      unfold linesOf
      rw [splitOnP_eq_singleton hnot]
      rfl
    | some cut =>
      obtain ⟨before, after⟩ := cut
      have hbefore : ∀ c ∈ before, decide (c = '\n') = false := by
        intro c hc
        apply decide_eq_false
        rintro rfl
        exact not_mem_of_splitOnce hnext hc
      have hsplit : text.splitOnP (· = '\n') = before :: after.splitOnP (· = '\n') := by
        rw [splitOnce_eq hnext, append_assoc]
        exact splitOnP_append_cons_of_forall_mem hbefore '\n' rfl after
      have hlines : linesOf text = dropReturn before :: linesOf after := by
        unfold linesOf
        rw [hsplit]
        cases hparts : after.splitOnP (· = '\n') with
        | nil => exact absurd hparts (splitOnP_ne_nil _ _)
        | cons part parts => simp
      rw [Framing.drain_some _ hnext, hlines,
        ih after.length (hlen ▸ Framing.next_shorter _ hnext) after rfl]
      rfl

theorem lineFraming_stable (text : List Char) : lineFraming.Stable text := by
  intro front buffer more _ frame rest h
  exact splitOnce_append more h

theorem finish_parserAfter (buffer : List Char) (hblock : Open block) :
    (parserAfter buffer block).finish.2 = eventsOfLines (block ++ lastLine buffer) := by
  have hbuffer : (parserAfter buffer block).buffer = buffer := rfl
  unfold finish lastLine
  rw [hbuffer]
  by_cases hempty : buffer = []
  · rw [if_pos hempty, if_pos hempty]
    dsimp only
    rw [takeEvent_parserAfter, append_nil, eventsOfLines_open hblock]
    rfl
  · rw [if_neg hempty, if_neg hempty]
    dsimp only
    obtain ⟨last, events, hlast, hproc, hevents⟩ :=
      processLines_parserAfter [] hblock [trimReturns buffer]
    rw [processLines_singleton] at hproc
    have hparser : ({ parserAfter buffer block with buffer := [] } : IncrementalSseParser) =
        parserAfter [] block := rfl
    rw [hparser, hproc, takeEvent_parserAfter]
    have hall := hevents []
    rw [append_nil, append_nil, eventsOfLines_open hlast] at hall
    exact hall.symm

theorem parse_parserAfter (buffer : List Char) (hblock : Open block) (chunks : List (List Char)) :
    (parserAfter buffer block).parse chunks =
      eventsOfLines (block ++ ((lineFraming.frames buffer chunks).1.map dropReturn ++
        lastLine (lineFraming.frames buffer chunks).2)) := by
  induction chunks generalizing buffer block with
  | nil =>
    unfold parse Framing.frames
    rw [finish_parserAfter buffer hblock]
    rfl
  | cons chunk chunks ih =>
    unfold parse Framing.frames pushChunk
    dsimp only
    obtain ⟨last, events, hlast, hproc, hevents⟩ :=
      processLines_parserAfter (lineFraming.drain (buffer ++ chunk)).2 hblock
        ((lineFraming.drain (buffer ++ chunk)).1.map dropReturn)
    have hparser (rest : List Char) :
        ({ parserAfter buffer block with buffer := rest } : IncrementalSseParser) =
          parserAfter rest block := rfl
    rw [hparser, show (parserAfter buffer block).buffer = buffer from rfl, hproc]
    dsimp only
    rw [ih _ hlast, ← hevents, map_append, append_assoc, append_assoc]

theorem parse_eq (chunks : List (List Char)) :
    IncrementalSseParser.new.parse chunks = (blocks chunks.flatten).filterMap blockEvent := by
  have hnone : Open [] := fun line hline => absurd hline not_mem_nil
  have hparse := parse_parserAfter [] hnone chunks
  rw [(lineFraming_stable _).frames_eq rfl, nil_append, nil_append,
    ← linesOf_eq_drain] at hparse
  exact hparse

def lineEnd (carriageReturn : Bool) : List Char := if carriageReturn then ['\r', '\n'] else ['\n']

def withEnds (lines : List (List Char × Bool)) (rest : List Char) : List Char :=
  (lines.flatMap fun line => line.1 ++ lineEnd line.2) ++ rest

theorem dropReturn_self (h : line.getLast? ≠ some '\r') :
    dropReturn line = line := by
  unfold dropReturn
  cases hstrip : stripSuffix ['\r'] line with
  | none => rfl
  | some front =>
    apply absurd _ h
    rw [stripSuffix_eq_some hstrip]
    simp

theorem dropReturn_append (line : List Char) : dropReturn (line ++ ['\r']) = line := by
  unfold dropReturn
  rw [stripSuffix_append]
  rfl

theorem linesOf_line (hline : '\n' ∉ line) (hreturn : line.getLast? ≠ some '\r')
    (carriageReturn : Bool) (more : List Char) :
    linesOf (line ++ lineEnd carriageReturn ++ more) = line :: linesOf more := by
  cases carriageReturn with
  | false =>
    have hnext : lineFraming.next (line ++ lineEnd false ++ more) = some (line, more) := by
      simpa [lineFraming, lineEnd] using splitOnce_singleton hline more
    rw [linesOf_eq_drain, linesOf_eq_drain, Framing.drain_some _ hnext, map_cons,
      dropReturn_self hreturn]
    rfl
  | true =>
    have hlonger : '\n' ∉ line ++ ['\r'] := by
      simpa using hline
    have hnext : lineFraming.next (line ++ lineEnd true ++ more) =
        some (line ++ ['\r'], more) := by
      simpa [lineFraming, lineEnd] using splitOnce_singleton hlonger more
    rw [linesOf_eq_drain, linesOf_eq_drain, Framing.drain_some _ hnext, map_cons,
      dropReturn_append]
    rfl

theorem linesOf_withEnds {lines : List (List Char × Bool)}
    (hlines : ∀ line ∈ lines, '\n' ∉ line.1 ∧ line.1.getLast? ≠ some '\r') (rest : List Char) :
    linesOf (withEnds lines rest) = lines.map Prod.fst ++ linesOf rest := by
  induction lines with
  | nil => rfl
  | cons line lines ih =>
    obtain ⟨hfeed, hreturn⟩ := hlines line mem_cons_self
    have hothers := ih fun other hother => hlines other (mem_cons_of_mem _ hother)
    have hfirst : withEnds (line :: lines) rest =
        line.1 ++ lineEnd line.2 ++ withEnds lines rest := by
      simp [withEnds]
    rw [hfirst, linesOf_line hfeed hreturn, hothers]
    rfl

/-- The cuts do not change the events, the line ends do not either, and each block between
blank lines is at most one event, with all the data of the block. -/
theorem events_of_blocks :
    (∀ chunks chunks' : List (List Char), chunks.flatten = chunks'.flatten →
      IncrementalSseParser.new.parse chunks = IncrementalSseParser.new.parse chunks') ∧
    (∀ (chunks chunks' : List (List Char)) (lines lines' : List (List Char × Bool))
        (rest : List Char),
      (∀ line ∈ lines, '\n' ∉ line.1 ∧ line.1.getLast? ≠ some '\r') →
      lines.map Prod.fst = lines'.map Prod.fst →
      chunks.flatten = withEnds lines rest → chunks'.flatten = withEnds lines' rest →
      IncrementalSseParser.new.parse chunks = IncrementalSseParser.new.parse chunks') ∧
    (∀ chunks : List (List Char),
      IncrementalSseParser.new.parse chunks = (blocks chunks.flatten).filterMap blockEvent) ∧
    ∀ block event, blockEvent block = some event →
      event.data = joinLines (values "data" block) := by
  refine ⟨?_, ?_, parse_eq, ?_⟩
  · intro chunks chunks' hflatten
    rw [parse_eq, parse_eq, hflatten]
  · intro chunks chunks' lines lines' rest hlines hsame hchunks hchunks'
    have hlines' : ∀ line ∈ lines', '\n' ∉ line.1 ∧ line.1.getLast? ≠ some '\r' := by
      intro line hline
      have hmem : line.1 ∈ lines.map Prod.fst := by
        rw [hsame]
        exact mem_map_of_mem hline
      obtain ⟨other, hother, hfst⟩ := mem_map.mp hmem
      exact hfst ▸ hlines other hother
    have hblocks : blocks chunks.flatten = blocks chunks'.flatten := by
      unfold blocks
      rw [hchunks, hchunks', linesOf_withEnds hlines, linesOf_withEnds hlines', hsame]
    rw [parse_eq, parse_eq, hblocks]
  · intro block event hevent
    unfold blockEvent at hevent
    split at hevent
    · cases hevent
    · cases hevent
      rfl

end EventStream

end DbClinic.Runtime
