import DbClinic.Api.AnthropicStream

/-!
The usage of a streamed message in the prompt cache. The events of a message
stream are those of the complete frames of its response, and one more if a last
frame without a blank line holds one. The former are observed before they are
handed on and the latter is not, so the usage is recorded once unless it is the
last frame that stops the message.
-/

namespace DbClinic.Api.Anthropic

open List
open DbClinic.Runtime (isWhitespace textLines trimMatches joinText)
open Framing (readAll)

/-- The events of the chunks of a response, and the decoder at its end or the
error that comes before. -/
def received (serde : Serde) :
    Response → SseParser → List StreamEvent × Except StreamError SseParser
  | [], p => ([], .ok p)
  | .error message :: _, _ => ([], .error (.transport message))
  | .ok bytes :: later, p =>
    match p.push serde bytes with
    | (.error e, _) => ([], .error (.decode e))
    | (.ok events, next) =>
      (events ++ (received serde later next).1, (received serde later next).2)

section

variable {serde : Serde}

theorem received_cons (bytes : List UInt8) (later : Response) (p : SseParser) :
    received serde (.ok bytes :: later) p =
      match readAll (p.parseFrameWithContext serde) (sseFraming.drain (p.buffer ++ bytes)).1 with
      | (_, some e) => ([], .error (.decode e))
      | (first, none) =>
        let others := received serde later
          { p with buffer := (sseFraming.drain (p.buffer ++ bytes)).2 }
        (first ++ others.1, others.2) := by
  obtain ⟨hres, hbuffer⟩ := sseFraming.push_eq (p.parseFrameWithContext serde)
    (p.buffer ++ bytes)
  have hpush : p.push serde bytes = ((p.push serde bytes).1,
    { p with buffer := (sseFraming.push (p.parseFrameWithContext serde) (p.buffer ++ bytes)).2 }) :=
    rfl
  have hfirst : (p.push serde bytes).1 = _ := hres
  rw [received, hpush, hfirst]
  cases hread : readAll (p.parseFrameWithContext serde)
      (sseFraming.drain (p.buffer ++ bytes)).1 with
  | mk first failed =>
    cases failed with
    | some e => rfl
    | none =>
      rw [hbuffer (by rw [hread])]

theorem frames_cons (buffer bytes : List UInt8) (chunks : List (List UInt8)) :
    sseFraming.frames buffer (bytes :: chunks) =
      ((sseFraming.drain (buffer ++ bytes)).1 ++
        (sseFraming.frames (sseFraming.drain (buffer ++ bytes)).2 chunks).1,
      (sseFraming.frames (sseFraming.drain (buffer ++ bytes)).2 chunks).2) := rfl

variable {p : SseParser}

theorem received_chunks {chunks : List (List UInt8)} {events : List StreamEvent}
    (h : readAll (p.parseFrameWithContext serde) (sseFraming.frames p.buffer chunks).1 =
      (events, none)) :
    received serde (chunks.map .ok) p =
      (events, .ok { p with buffer := (sseFraming.frames p.buffer chunks).2 }) := by
  induction chunks generalizing p events with
  | nil =>
    cases h
    rfl
  | cons bytes chunks ih =>
    rw [map_cons, received_cons]
    rw [frames_cons] at h ⊢
    dsimp only at h ⊢
    cases hread : readAll (p.parseFrameWithContext serde)
        (sseFraming.drain (p.buffer ++ bytes)).1 with
    | mk first failed =>
      cases failed with
      | some e =>
        rw [Framing.readAll_append_some (by rw [hread]), hread] at h
        cases h
      | none =>
        rw [Framing.readAll_append_none (by rw [hread]), hread] at h
        obtain ⟨hevents, hnone⟩ := Prod.ext_iff.mp h
        let next : SseParser := { p with buffer := (sseFraming.drain (p.buffer ++ bytes)).2 }
        have hothers := ih (p := next) (Prod.ext rfl hnone)
        dsimp only
        rw [hothers]
        exact Prod.ext hevents rfl

theorem received_ok {response : Response} {last : SseParser}
    (h : (received serde response p).2 = .ok last) :
    ∃ chunks : List (List UInt8), response = chunks.map .ok ∧
      (readAll (p.parseFrameWithContext serde) (sseFraming.frames p.buffer chunks).1).2 = none := by
  induction response generalizing p with
  | nil => exact ⟨[], rfl, rfl⟩
  | cons chunk later ih =>
    cases chunk with
    | error message => cases h
    | ok bytes =>
      rw [received_cons] at h
      cases hread : readAll (p.parseFrameWithContext serde)
          (sseFraming.drain (p.buffer ++ bytes)).1 with
      | mk first failed =>
        rw [hread] at h
        cases failed with
        | some e => cases h
        | none =>
          obtain ⟨chunks, rfl, hnone⟩ := ih h
          refine ⟨bytes :: chunks, rfl, ?_⟩
          rw [frames_cons, Framing.readAll_append_none (by rw [hread])]
          exact hnone

end

namespace MessageStream

variable {Record : Type} {serde : Serde}

/-- The events that are handed on before the response ends. -/
def incoming (serde : Serde) (response : Response) (m : MessageStream Record) :
    List StreamEvent := m.pending ++ (received serde response m.parser).1

def ending (serde : Serde) (response : Response) (m : MessageStream Record) :
    Except StreamError SseParser := (received serde response m.parser).2

variable {m : MessageStream Record} {response later : Response} {event : StreamEvent}
variable {rest events : List StreamEvent}

theorem nextEvent_pending (h : m.pending = event :: rest) :
    nextEvent serde response m = (.ok (some event),
      { m with pending := rest, tracker := m.tracker.observeEvent event }, response) := by
  cases response <;> simp only [nextEvent, h]

theorem nextEvent_chunk {bytes : List UInt8} (hpend : m.pending = []) (hdone : m.done = false) :
    nextEvent serde (.ok bytes :: later) m =
      match m.parser.push serde bytes with
      | (.error e, parser) => (.error (.decode e), { m with parser }, later)
      | (.ok events, parser) => nextEvent serde later { m with parser, pending := events } := by
  rw [nextEvent, hpend, hdone]
  rfl

theorem nextEvent_incoming (hdone : m.done = false)
    (h : incoming serde response m = event :: rest) :
    ∃ later next, nextEvent serde response m = (.ok (some event), next, later) ∧
      next.done = false ∧ incoming serde later next = rest ∧
      ending serde later next = ending serde response m ∧
      next.tracker = m.tracker.observeEvent event := by
  induction response generalizing m with
  | nil =>
    have hpend : m.pending = event :: rest := by simpa [incoming, received] using h
    exact ⟨_, _, nextEvent_pending hpend, hdone, append_nil rest, rfl, rfl⟩
  | cons chunk later ih =>
    cases hpend : m.pending with
    | cons first others =>
      rw [incoming, hpend] at h
      cases h
      exact ⟨_, _, nextEvent_pending hpend, hdone, rfl, rfl, rfl⟩
    | nil =>
      rw [incoming, hpend, nil_append] at h
      cases chunk with
      | error message => cases h
      | ok bytes =>
        rw [received] at h
        rw [nextEvent_chunk hpend hdone, ending, received]
        cases hpush : m.parser.push serde bytes with
        | mk result parser =>
          rw [hpush] at h
          cases result with
          | error e => cases h
          | ok events => exact ih (m := { m with parser, pending := events }) hdone h

theorem nextEvent_ended (hdone : m.done = false) (h : incoming serde response m = []) :
    (∀ e, ending serde response m = .error e → (nextEvent serde response m).1 = .error e) ∧
      ∀ parser, ending serde response m = .ok parser →
        nextEvent serde response m =
          ((finishEvents serde { m with parser, pending := [], done := true }).1,
            (finishEvents serde { m with parser, pending := [], done := true }).2, []) := by
  induction response generalizing m with
  | nil =>
    have hpend : m.pending = [] := by simpa [incoming, received] using h
    refine ⟨nofun, fun parser hparser => ?_⟩
    cases hparser
    rw [nextEvent, hpend]
  | cons chunk later ih =>
    obtain ⟨hpend, h⟩ := append_eq_nil_iff.mp h
    cases chunk with
    | error message =>
      refine ⟨fun e he => ?_, nofun⟩
      cases he
      rw [nextEvent, hpend, hdone]
      rfl
    | ok bytes =>
      rw [received] at h
      rw [nextEvent_chunk hpend hdone, ending, received]
      cases hpush : m.parser.push serde bytes with
      | mk result parser =>
        rw [hpush] at h
        cases result with
        | error e =>
          refine ⟨fun e' he => ?_, nofun⟩
          cases he
          rfl
        | ok events => exact ih (m := { m with parser, pending := events }) hdone h

theorem nextEvent_exhausted (hdone : m.done = true) (hpend : m.pending = [])
    (hbuffer : m.parser.buffer = []) :
    (nextEvent serde response m).1 = .ok none := by
  have hfinish : m.parser.finish serde = (.ok [], m.parser) := if_pos hbuffer
  cases response with
  | nil => simp only [nextEvent, hpend, finishEvents, hfinish]
  | cons chunk later => simp only [nextEvent, hpend, hdone, if_true, finishEvents, hfinish]

variable {p : SseParser} {next last : MessageStream Record}

theorem finish_cases {parser : SseParser} (h : p.finish serde = (.ok (event :: rest), parser)) :
    p.buffer ≠ [] ∧ p.parseFrameWithContext serde p.buffer = .ok (some event) ∧ rest = [] ∧
      parser.buffer = [] := by
  unfold SseParser.finish at h
  split at h
  · cases h
  · rename_i hne
    obtain ⟨hevents, rfl⟩ := Prod.ext_iff.mp h
    refine ⟨hne, ?_⟩
    cases hparse : p.parseFrameWithContext serde p.buffer with
    | error e =>
      rw [hparse] at hevents
      cases hevents
    | ok item =>
      rw [hparse] at hevents
      cases item with
      | none => cases hevents
      | some event' =>
        cases hevents
        exact ⟨rfl, rfl, rfl⟩

theorem finish_some (hne : p.buffer ≠ [])
    (h : p.parseFrameWithContext serde p.buffer = .ok (some event)) :
    p.finish serde = (.ok [event], { p with buffer := [] }) := by
  unfold SseParser.finish
  rw [if_neg hne, h]
  rfl

theorem nextEvent_flushed (hdone : m.done = false) (h : incoming serde response m = [])
    (hnext : nextEvent serde response m = (.ok (some event), next, later)) :
    ∃ parser, ending serde response m = .ok parser ∧ parser.buffer ≠ [] ∧
      parser.parseFrameWithContext serde parser.buffer = .ok (some event) ∧
      next.tracker = m.tracker ∧ (nextEvent serde later next).1 = .ok none := by
  obtain ⟨herror, hend⟩ := nextEvent_ended hdone h
  cases hending : ending serde response m with
  | error e =>
    have hfailed := herror e hending
    rw [hnext] at hfailed
    cases hfailed
  | ok parser =>
    rw [hend parser hending, finishEvents] at hnext
    cases hfinish : parser.finish serde with
    | mk result after =>
      rw [hfinish] at hnext
      cases result with
      | error e => cases hnext
      | ok events =>
        cases events with
        | nil => cases hnext
        | cons event' rest =>
          cases hnext
          obtain ⟨hne, hparse, rfl, hbuffer⟩ := finish_cases hfinish
          exact ⟨parser, rfl, hne, hparse, rfl, nextEvent_exhausted rfl rfl hbuffer⟩

theorem Calls.snoc {middle : Response} (h : Calls serde response m events middle next)
    (hnext : nextEvent serde middle next = (.ok (some event), last, later)) :
    Calls serde response m (events ++ [event]) later last := by
  induction h with
  | nil => exact .cons hnext .nil
  | cons hfirst _ ih => exact .cons hfirst (ih hnext)

theorem calls_incoming (hdone : m.done = false) (h : incoming serde response m = events ++ rest) :
    ∃ later last, Calls serde response m events later last ∧ last.done = false ∧
      incoming serde later last = rest ∧ ending serde later last = ending serde response m ∧
      last.tracker = m.tracker.observeAll events := by
  induction events generalizing response m with
  | nil => exact ⟨response, m, .nil, hdone, h, rfl, rfl⟩
  | cons event events ih =>
    obtain ⟨middle, next, hnext, hstill, hcoming, hending, htracker⟩ :=
      nextEvent_incoming hdone h
    obtain ⟨later, last, hcalls, hlast, hrest, hsame, hobserved⟩ := ih hstill hcoming
    rw [htracker] at hobserved
    exact ⟨later, last, .cons hnext hcalls, hlast, hrest, hsame.trans hending, hobserved⟩

theorem Calls.events_eq (hdone : m.done = false) (h : Calls serde response m events later last) :
    (∃ rest, incoming serde response m = events ++ rest ∧
      last.tracker = m.tracker.observeAll events) ∨
    ∃ parser event, ending serde response m = .ok parser ∧
      events = incoming serde response m ++ [event] ∧ parser.buffer ≠ [] ∧
      parser.parseFrameWithContext serde parser.buffer = .ok (some event) ∧
      last.tracker = m.tracker.observeAll (incoming serde response m) := by
  induction h with
  | nil => exact .inl ⟨_, rfl, rfl⟩
  | @cons response m event next middle events later last hnext hrest ih =>
    cases hcoming : incoming serde response m with
    | nil =>
      obtain ⟨parser, hending, hne, hparse, htracker, hnone⟩ :=
        nextEvent_flushed hdone hcoming hnext
      refine .inr ⟨parser, event, hending, ?_, hne, hparse, ?_⟩
      · cases hrest with
        | nil => rfl
        | cons hmore _ =>
          rw [hmore] at hnone
          cases hnone
      · cases hrest with
        | nil => exact htracker
        | cons hmore _ =>
          rw [hmore] at hnone
          cases hnone
    | cons first others =>
      obtain ⟨middle', next', hfirst, hstill, hothers, hsame, htracker⟩ :=
        nextEvent_incoming hdone hcoming
      rw [hnext] at hfirst
      cases hfirst
      rcases ih hstill with ⟨rest, hevents, hobserved⟩ |
          ⟨parser, last', hending, hevents, hne, hparse, hobserved⟩
      · refine .inl ⟨rest, ?_, ?_⟩
        · rw [← hothers, hevents]
          rfl
        · rw [hobserved, htracker]
          rfl
      · refine .inr ⟨parser, last', hsame ▸ hending, ?_, hne, hparse, ?_⟩
        · rw [hevents, hothers]
          rfl
        · rw [hobserved, htracker, hothers]
          rfl

end MessageStream

section

variable {Record : Type} (serde : Serde) (model : String) (response : Response)

/-- When the message stops after a usage, the prompt cache has been given its
last usage, once, by the time the caller has the stop event. -/
def RecordsUsage (cache : PromptCache Record) (record : Option Record) : Prop :=
  ∀ events later last usage,
    MessageStream.Calls serde response (.new model (some cache) record)
      (events ++ [.messageStop]) later last →
    StreamEvent.messageStop ∉ events → lastUsage events = some usage →
    last.tracker.promptCache = some { cache with recorded := cache.recorded ++ [usage] }

/-- It is a last frame without a blank line after it that stops the message. -/
def StopFlushed : Prop :=
  ∃ (chunks : List (List UInt8)) (events : List StreamEvent), response = chunks.map .ok ∧
    readAll (SseParser.parseFrameWithContext serde ⟨[], some "Anthropic", some model⟩)
      (sseFraming.frames [] chunks).1 = (events, none) ∧
    StreamEvent.messageStop ∉ events ∧ lastUsage events ≠ none ∧
    (sseFraming.frames [] chunks).2 ≠ [] ∧
    SseParser.parseFrameWithContext serde ⟨[], some "Anthropic", some model⟩
      (sseFraming.frames [] chunks).2 = .ok (some .messageStop)

variable {serde model response}

theorem stopFlushed_of_ending {parser : SseParser}
    (hending : (received serde response ⟨[], some "Anthropic", some model⟩).2 = .ok parser)
    (hne : parser.buffer ≠ [])
    (hparse : parser.parseFrameWithContext serde parser.buffer = .ok (some .messageStop))
    (hstop : StreamEvent.messageStop ∉
      (received serde response ⟨[], some "Anthropic", some model⟩).1)
    (husage : lastUsage (received serde response ⟨[], some "Anthropic", some model⟩).1 ≠ none) :
    StopFlushed serde model response := by
  obtain ⟨chunks, rfl, hnone⟩ := received_ok hending
  have hreceived := received_chunks (Prod.ext rfl hnone)
  rw [hreceived] at hending hstop husage
  cases hending
  exact ⟨chunks, _, rfl, Prod.ext rfl hnone, hstop, husage, hne, hparse⟩

theorem StopFlushed.unrecorded {cache : PromptCache Record} {record : Option Record}
    (h : StopFlushed serde model response) :
    ¬ RecordsUsage serde model response cache record := by
  obtain ⟨chunks, events, rfl, hread, hstop, husage, hne, hparse⟩ := h
  intro hrecords
  have hreceived := received_chunks hread
  let m : MessageStream Record := .new model (some cache) record
  have hcoming : MessageStream.incoming serde (chunks.map .ok) m = events ++ [] := by
    rw [append_nil]
    exact congrArg Prod.fst hreceived
  obtain ⟨middle, next, hcalls, hdone, hnil, hending, htracker⟩ :=
    MessageStream.calls_incoming (m := m) rfl hcoming
  have hend := (MessageStream.nextEvent_ended hdone hnil).2 _
    (hending.trans (congrArg Prod.snd hreceived))
  rw [MessageStream.finishEvents, MessageStream.finish_some hne hparse] at hend
  obtain ⟨usage, hlast⟩ := Option.ne_none_iff_exists'.mp husage
  have hcache := hrecords events _ _ usage (hcalls.snoc hend) hstop hlast
  dsimp only at hcache
  rw [htracker, UsageTracker.observeAll_eq _ hstop] at hcache
  have hrecorded := congrArg PromptCache.recorded (Option.some.inj hcache)
  have hlen := congrArg List.length hrecorded
  simp at hlen

/-- The usage is recorded exactly once, unless it is a last frame without a
blank line after it that stops the message. -/
theorem recordsUsage_iff (serde : Serde) (model : String) (response : Response)
    (cache : PromptCache Record) (record : Option Record) :
    RecordsUsage serde model response cache record ↔ ¬ StopFlushed serde model response := by
  constructor
  · intro hrecords hflushed
    exact hflushed.unrecorded hrecords
  · intro hnot events later last usage hcalls hstop husage
    rcases hcalls.events_eq rfl with ⟨rest, -, htracker⟩ |
        ⟨parser, event, hending, hevents, hne, hparse, -⟩
    · rw [htracker]
      exact UsageTracker.observeAll_stop cache record hstop husage
    · obtain ⟨heq, hevent⟩ := append_inj' hevents rfl
      cases hevent
      refine absurd (stopFlushed_of_ending hending hne hparse ?_ ?_) hnot
      · rw [heq] at hstop
        exact hstop
      · rw [heq] at husage
        exact fun hnone => nomatch hnone.symm.trans husage

end

/-- `data: ` and some text. -/
def dataFrame (payload : String) : List UInt8 :=
  ("data: " ++ payload).toList.map fun c => c.toNat.toUInt8

def deltaPayload : String := "\x7b\"type\":\"message_delta\",\"delta\":\x7b\x7d\x7d"

def stopPayload : String := "\x7b\"type\":\"message_stop\"\x7d"

/-- A body that ends without a blank line after its last frame. -/
def unendedBody : List UInt8 := dataFrame deltaPayload ++ [10, 10] ++ dataFrame stopPayload

/-- The deserialisers on the payloads of this body. -/
def unendedSerde : Serde where
  streamEvent := fun payload =>
    if payload = deltaPayload then .ok (.messageDelta none none Usage.zero)
    else if payload = stopPayload then .ok .messageStop
    else .error ⟨"expected value"⟩
  value := fun _ => none
  chunk := fun _ => .error ⟨"expected value"⟩

theorem parse_payload {serde : Serde} {p : SseParser} {frame : List UInt8} {event : StreamEvent}
    (payload : String) (hne : trimMatches isWhitespace (fromUtf8Lossy frame) ≠ [])
    (hlines : (textLines (trimMatches isWhitespace (fromUtf8Lossy frame))).foldl frameLine
      ([], none) = ([payload], none))
    (hdone : payload ≠ "[DONE]") (hevent : serde.streamEvent payload = .ok event) :
    p.parseFrameWithContext serde frame = .ok (some event) := by
  have hjoin : joinText "\n" [payload] = payload := by simp [joinText]
  unfold SseParser.parseFrameWithContext parseFrameWithProvider
  simp [hne, hlines, hjoin, hdone, hevent]

/-- The usage of this body is never recorded. -/
theorem unended_stop_unrecorded :
    ¬ ∀ (serde : Serde) (model : String) (response : Response) (cache : PromptCache Unit)
      (record : Option Unit), RecordsUsage serde model response cache record := by
  intro h
  have hrecords := h unendedSerde "claude" [.ok unendedBody] ⟨fun _ _ => (), []⟩ none
  have hnext : sseFraming.next unendedBody =
      some (dataFrame deltaPayload, dataFrame stopPayload) := by decide +kernel
  have hlast : sseFraming.next (dataFrame stopPayload) = none := by decide +kernel
  have hframes : sseFraming.frames [] [unendedBody] =
      ([dataFrame deltaPayload], dataFrame stopPayload) := by
    rw [frames_cons, nil_append, sseFraming.drain_some hnext, sseFraming.drain_none hlast]
    rfl
  have hdelta : SseParser.parseFrameWithContext unendedSerde ⟨[], some "Anthropic", some "claude"⟩
      (dataFrame deltaPayload) = .ok (some (.messageDelta none none Usage.zero)) := by
    apply parse_payload deltaPayload
    · decide +kernel
    · decide +kernel
    · decide +kernel
    · simp [unendedSerde]
  have hstop : SseParser.parseFrameWithContext unendedSerde ⟨[], some "Anthropic", some "claude"⟩
      (dataFrame stopPayload) = .ok (some .messageStop) := by
    have hother : stopPayload ≠ deltaPayload := by decide +kernel
    apply parse_payload stopPayload
    · decide +kernel
    · decide +kernel
    · decide +kernel
    · simp [unendedSerde, hother]
  refine StopFlushed.unrecorded
    ⟨[unendedBody], [.messageDelta none none Usage.zero], rfl, ?_, ?_, ?_, ?_, ?_⟩ hrecords
  · rw [hframes, readAll, hdelta]
    rfl
  · simp
  · simp [lastUsage, usageOf]
  · rw [hframes]
    decide +kernel
  · rw [hframes]
    exact hstop

end DbClinic.Api.Anthropic
