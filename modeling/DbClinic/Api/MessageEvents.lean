import DbClinic.Api.SseParser
import DbClinic.Api.StreamBlocks

/-!
The events of a message stream. Consecutive calls of `nextEvent` deliver what
the translation makes of the chunks the parser hands on, push by push, and then
what it makes of their end.
-/

namespace DbClinic.Api

namespace StreamState

theorem ingestChunks_append (s : StreamState) (xs ys : List ChatCompletionChunk) :
    s.ingestChunks (xs ++ ys) = (s.ingestChunks xs).bind fun first =>
      (first.1.ingestChunks ys).bind fun others => some (others.1, first.2 ++ others.2) := by
  have hinputs : inputsOf (xs ++ ys) = inputsOf xs ++ inputsOf ys := List.flatMap_append
  simp only [ingestChunks_eq, hinputs, ingestAll_append]

variable {s next : StreamState} {events : List StreamEvent}

theorem changeTools_finished {change : ToolCallState → Option (ToolCallState × List StreamEvent)}
    (h : changeTools change s = some (next, events)) :
    next.finished = s.finished := by
  unfold changeTools at h
  split at h
  · cases h
  · cases h
    rfl

theorem finish_again (h : s.finish = some (next, events)) : next.finish = some (next, []) := by
  have hfinished : next.finished = true := by
    unfold finish at h
    split at h
    · rename_i hs
      cases h
      exact hs
    · simp only [Option.bind_eq_bind, Option.bind_eq_some_iff] at h
      obtain ⟨called, hcalled, heq⟩ := h
      cases heq
      have hkeep := changeTools_finished (hcalled.trans (congrArg some (Prod.eta called).symm))
      rw [hkeep]
      unfold closeText closeThinking
      split <;> split <;> rfl
  exact if_pos hfinished

end StreamState

namespace MessageStream

variable {serde : Serde}

/-- The events of a message stream whose response did not end yet, and why it
ended early, if it did. -/
def deliver (serde : Serde) : List (List UInt8) → MessageStream → List StreamEvent × Option Failure
  | [], m =>
    match m.state.finish with
    | none => (m.pending, some .overflow)
    | some (_, events) => (m.pending ++ events, none)
  | chunk :: chunks, m =>
    match receive serde { m with pending := [] } chunk with
    | .error failure => (m.pending, some failure)
    | .ok next => (m.pending ++ (deliver serde chunks next).1, (deliver serde chunks next).2)

variable {events : List StreamEvent} {response : List (List UInt8)} {m : MessageStream}
variable {outcome : Option Failure}

theorem delivers_pending (pending : List StreamEvent)
    (h : Delivers serde response { m with pending := [] } events outcome) :
    Delivers serde response { m with pending } (pending ++ events) outcome := by
  induction pending with
  | nil => exact h
  | cons event rest ih =>
    have hnext : nextEvent serde response { m with pending := event :: rest } =
        .ok (some event, { m with pending := rest }, response) := by
      cases response <;> rfl
    exact .event hnext ih

theorem delivers_congr {response' : List (List UInt8)} {m' : MessageStream}
    (hnext : nextEvent serde response m = nextEvent serde response' m')
    (h : Delivers serde response' m' events outcome) :
    Delivers serde response m events outcome := by
  cases h with
  | ended hend => exact .ended (hnext.trans hend)
  | failed hfail => exact .failed (hnext.trans hfail)
  | event hevent rest => exact .event (hnext.trans hevent) rest

theorem delivers_unique {events' : List StreamEvent} {outcome' : Option Failure}
    (h : Delivers serde response m events outcome)
    (h' : Delivers serde response m events' outcome') :
    events = events' ∧ outcome = outcome' := by
  induction h generalizing events' outcome' with
  | ended hend =>
    cases h' with
    | ended _ => exact ⟨rfl, rfl⟩
    | failed hfail =>
      rw [hend] at hfail
      cases hfail
    | event hevent _ =>
      rw [hend] at hevent
      cases hevent
  | failed hfail =>
    cases h' with
    | ended hend =>
      rw [hfail] at hend
      cases hend
    | failed hfail' =>
      rw [hfail] at hfail'
      cases hfail'
      exact ⟨rfl, rfl⟩
    | event hevent _ =>
      rw [hfail] at hevent
      cases hevent
  | event hevent _ ih =>
    cases h' with
    | ended hend =>
      rw [hevent] at hend
      cases hend
    | failed hfail =>
      rw [hevent] at hfail
      cases hfail
    | event hevent' rest =>
      rw [hevent] at hevent'
      cases hevent'
      obtain ⟨hevents, houtcome⟩ := ih rest
      exact ⟨congrArg _ hevents, houtcome⟩

theorem delivers_end (m : MessageStream) (hpend : m.pending = []) :
    Delivers serde [] m (deliver serde [] m).1 (deliver serde [] m).2 := by
  have hnext : nextEvent serde [] m =
      (finishEvents { m with done := true }).map fun found => (found.1, found.2, []) := by
    rw [nextEvent, hpend]
  rw [deliver, hpend]
  cases hfinish : m.state.finish with
  | none =>
    refine .failed (hnext.trans ?_)
    rw [finishEvents, hfinish]
    rfl
  | some result =>
    obtain ⟨state, events⟩ := result
    dsimp only
    rw [List.nil_append]
    cases events with
    | nil =>
      have hended : nextEvent serde [] m = .ok (none, { m with done := true, state }, []) := by
        rw [hnext, finishEvents, hfinish]
        rfl
      exact .ended hended
    | cons event rest =>
      have hfirst : nextEvent serde [] m = .ok (some event,
          { m with done := true, state, pending := rest }, []) := by
        rw [hnext, finishEvents, hfinish]
        rfl
      have hagain := StreamState.finish_again hfinish
      have hended : nextEvent serde [] { m with done := true, state, pending := [] } =
          .ok (none, { m with done := true, state, pending := [] }, []) := by
        rw [nextEvent, finishEvents, hagain]
        rfl
      have hrest := @delivers_pending serde [] [] { m with done := true, state } none rest
        (.ended hended)
      rw [List.append_nil] at hrest
      exact .event hfirst hrest

theorem delivers_deliver (response : List (List UInt8)) (m : MessageStream)
    (hdone : m.done = false) :
    Delivers serde response m (deliver serde response m).1 (deliver serde response m).2 := by
  induction response generalizing m with
  | nil =>
    have hend : Delivers serde [] { m with pending := [] }
        (deliver serde [] { m with pending := [] }).1
        (deliver serde [] { m with pending := [] }).2 := delivers_end _ rfl
    have hpend := delivers_pending m.pending hend
    rw [deliver] at hpend ⊢
    cases hfinish : m.state.finish with
    | none =>
      rw [hfinish] at hpend
      simpa using hpend
    | some result =>
      rw [hfinish] at hpend
      exact hpend
  | cons chunk chunks ih =>
    rw [deliver]
    cases hreceive : receive serde { m with pending := [] } chunk with
    | error failure =>
      have hnext : nextEvent serde (chunk :: chunks) { m with pending := [] } =
          .error failure := by
        simp only [nextEvent, if_neg (hdone ▸ Bool.false_ne_true), hreceive]
      have hfailed := delivers_pending m.pending (.failed hnext)
      rw [List.append_nil] at hfailed
      exact hfailed
    | ok next =>
      have hstill : next.done = false := by
        unfold receive at hreceive
        split at hreceive
        · cases hreceive
        · split at hreceive
          · cases hreceive
          · cases hreceive
            exact hdone
      have hnext : nextEvent serde (chunk :: chunks) { m with pending := [] } =
          nextEvent serde chunks next := by
        simp only [nextEvent, if_neg (hdone ▸ Bool.false_ne_true), hreceive]
      exact delivers_pending m.pending (delivers_congr hnext (ih next hstill))

theorem delivers_iff (hdone : m.done = false) :
    Delivers serde response m events outcome ↔ deliver serde response m = (events, outcome) := by
  have hdeliver : Delivers serde response m (deliver serde response m).1
      (deliver serde response m).2 := delivers_deliver response m hdone
  constructor
  · intro h
    obtain ⟨hevents, houtcome⟩ := delivers_unique hdeliver h
    rw [← hevents, ← houtcome]
  · intro h
    rw [h] at hdeliver
    exact hdeliver

theorem deliver_eq (response : List (List UInt8)) (m : MessageStream) {last : StreamState}
    (hingest : m.state.ingestChunks (m.parser.received serde response) = some (last, events)) :
    deliver serde response m =
      match (sseFraming.feed (m.parser.parse serde) m.parser.buffer response).2 with
        | .error e => (m.pending ++ events, some (.api e))
        | .ok _ =>
          match last.finish with
          | none => (m.pending ++ events, some .overflow)
          | some (_, ends) => (m.pending ++ (events ++ ends), none) := by
  induction response generalizing m events with
  | nil =>
    cases hingest
    rw [deliver, Framing.feed]
    cases m.state.finish <;> simp
  | cons chunk chunks ih =>
    rw [OpenAiSseParser.received] at hingest
    rw [deliver, receive, Framing.feed]
    cases hpush : m.parser.push serde chunk with
    | mk result parser =>
      have hframing : sseFraming.push (m.parser.parse serde) (m.parser.buffer ++ chunk) =
          (result, parser.buffer) := by
        have hres := congrArg Prod.fst hpush
        have hparser := congrArg (fun pushed => pushed.2.buffer) hpush
        exact Prod.ext hres hparser
      have hparse : parser.parse serde = m.parser.parse serde := by
        have hparser := congrArg Prod.snd hpush
        dsimp only at hparser
        rw [← hparser]
        rfl
      rw [hpush] at hingest
      rw [hframing]
      cases result with
      | error e =>
        cases hingest
        dsimp only
        rw [List.append_nil]
      | ok parsed =>
        dsimp only at hingest ⊢
        rw [StreamState.ingestChunks_append] at hingest
        obtain ⟨⟨state, first⟩, hfirst, hrest⟩ := Option.bind_eq_some_iff.mp hingest
        obtain ⟨⟨last', others⟩, hothers, heq⟩ := Option.bind_eq_some_iff.mp hrest
        cases heq
        rw [hfirst]
        dsimp only
        rw [ih ⟨parser, [] ++ first, m.done, state⟩ hothers]
        dsimp only
        rw [hparse]
        cases (sseFraming.feed (m.parser.parse serde) parser.buffer chunks).2 with
        | error e => simp
        | ok rest =>
          dsimp only
          cases last'.finish with
          | none => simp
          | some ends => simp

end MessageStream

end DbClinic.Api
