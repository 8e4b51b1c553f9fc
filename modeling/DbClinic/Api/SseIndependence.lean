import DbClinic.Api.MessageEvents

/-!
Chunk independence of the decoders. What a stream should give is read off its
frames: the parts between blank lines, and the last part if it is not empty.
-/

namespace DbClinic.Api

open List

def firstFrame (stream : List UInt8) : Option (List UInt8 × List UInt8) :=
  match position lfLf stream, position crLfCrLf stream with
  | none, none => none
  | some p, none => some (stream.take p, stream.drop (p + 2))
  | none, some q => some (stream.take q, stream.drop (q + 4))
  | some p, some q =>
    if p < q then some (stream.take p, stream.drop (p + 2))
    else some (stream.take q, stream.drop (q + 4))

variable {stream : List UInt8}

theorem firstFrame_eq (h : Unmixed stream) :
    firstFrame stream = nextFrame stream := by
  unfold firstFrame
  cases hlf : position lfLf stream with
  | none =>
    cases hcrlf : position crLfCrLf stream with
    | none => rw [nextFrame_none hlf hcrlf]
    | some q => rw [nextFrame_crlf hlf hcrlf]
  | some p =>
    rw [nextFrame_lf hlf]
    cases hcrlf : position crLfCrLf stream with
    | none => rfl
    | some q =>
      refine if_pos ?_
      obtain ⟨before, after, heq, hbefore⟩ := position_eq hcrlf
      rcases position_apart heq hlf with hle | hle
      · exfalso
        obtain ⟨front, back, hsplit, hfront⟩ := position_eq hlf
        have hwhole : stream = (before ++ [13, 10, 13]) ++ (10 :: after) := by
          rw [heq]
          simp [crLfCrLf]
        have hdrop := congrArg (List.drop (before ++ [13, 10, 13]).length)
          (hwhole.symm.trans hsplit)
        rw [drop_left, append_assoc, drop_append_of_le_length (by
          simp only [length_append, length_cons, length_nil]
          omega)] at hdrop
        exact h before after heq ⟨_, back, by rw [append_assoc]; exact hdrop.symm⟩
      · omega

def streamFraming : Framing UInt8 where
  next := firstFrame
  cuts := by
    intro buffer frame rest h
    have hcut {separator : List UInt8} {p : Nat} (hp : position separator buffer = some p)
        (hne : separator ≠ []) : ∃ front, front ≠ [] ∧
          buffer = front ++ buffer.drop (p + separator.length) := by
      have hlen := length_of_position hp
      have hpos := length_pos_iff.mpr hne
      refine ⟨buffer.take (p + separator.length), ?_, (take_append_drop _ _).symm⟩
      rw [Ne, ← length_eq_zero_iff, length_take]
      omega
    unfold firstFrame at h
    split at h
    · cases h
    · rename_i p hlf _
      cases h
      exact hcut hlf (by decide)
    · rename_i q _ hcrlf
      cases h
      exact hcut hcrlf (by decide)
    · rename_i p q hlf hcrlf
      split at h
      · cases h
        exact hcut hlf (by decide)
      · cases h
        exact hcut hcrlf (by decide)

theorem Unmixed.tail {front : List UInt8} (h : Unmixed (front ++ stream)) :
    Unmixed stream := by
  rintro before after rfl
  refine h (front ++ before) after ?_
  simp only [append_assoc]

theorem drain_eq (h : Unmixed stream) :
    sseFraming.drain stream = streamFraming.drain stream := by
  induction hlen : stream.length using Nat.strong_induction_on generalizing stream with
  | _ n ih =>
    have hsame : streamFraming.next stream = sseFraming.next stream := firstFrame_eq h
    cases hnext : sseFraming.next stream with
    | none => rw [sseFraming.drain_none hnext, streamFraming.drain_none (hsame.trans hnext)]
    | some cut =>
      obtain ⟨frame, rest⟩ := cut
      have hrest : Unmixed rest := by
        obtain ⟨front, -, heq⟩ := sseFraming.cuts hnext
        rw [heq] at h
        exact h.tail
      rw [sseFraming.drain_some hnext, streamFraming.drain_some (hsame.trans hnext),
        ih rest.length (hlen ▸ sseFraming.next_shorter hnext) hrest rfl]

def completeFrames (stream : List UInt8) : List (List UInt8) := (streamFraming.drain stream).1

/-- What comes after the last blank line of a stream. -/
def lastPart (stream : List UInt8) : List UInt8 := (streamFraming.drain stream).2

def allFrames (stream : List UInt8) : List (List UInt8) :=
  completeFrames stream ++ if lastPart stream = [] then [] else [lastPart stream]

open Framing (readAll Blameless)

section

variable (serde : Serde)

/-- In whatever chunks a stream comes, the decoder gives the events of its
frames up to the first malformed one. -/
def SseDelivers (provider model : Option String) (stream : List UInt8) : Prop :=
  ∀ chunks, chunks.flatten = stream →
    (SseParser.decode serde ⟨[], provider, model⟩ chunks).1 =
      (readAll (SseParser.parseFrameWithContext serde ⟨[], provider, model⟩)
        (allFrames stream)).1

def chunksOf (provider model : String) (stream : List UInt8) : List ChatCompletionChunk :=
  (readAll ((OpenAiSseParser.withContext provider model).parse serde) (allFrames stream)).1

/-- In whatever chunks a stream comes, `nextEvent` gives the same events, made
of the chunks in the frames up to the first malformed one. -/
structure OpenAiDelivers (provider model : String) (stream : List UInt8) : Prop where
  received : ∀ chunks, chunks.flatten = stream →
    (OpenAiSseParser.withContext provider model).received serde chunks =
      chunksOf serde provider model stream
  same : StreamState.events model (chunksOf serde provider model stream) ≠ none →
    ∀ chunks chunks', chunks.flatten = stream → chunks'.flatten = stream →
      ∀ events outcome,
        MessageStream.Delivers serde chunks (MessageStream.new provider model) events outcome ↔
        MessageStream.Delivers serde chunks' (MessageStream.new provider model) events outcome

/-- The last part of a stream has no chunk, unless a frame before it is malformed. -/
def LastPartSilent (provider model : String) (stream : List UInt8) : Prop :=
  Framing.WellFormed ((OpenAiSseParser.withContext provider model).parse serde)
      (completeFrames stream) →
    lastPart stream ≠ [] → ∀ chunk,
      (OpenAiSseParser.withContext provider model).parse serde (lastPart stream) ≠
        .ok (some chunk)

variable {serde}

theorem decode_eq (p : SseParser) (chunks : List (List UInt8)) :
    p.decode serde chunks =
      match sseFraming.feed (p.parseFrameWithContext serde) p.buffer chunks with
      | (items, .error e) => (items, some e)
      | (items, .ok rest) =>
        if rest = [] then (items, none)
        else match p.parseFrameWithContext serde rest with
          | .ok item => (items ++ item.toList, none)
          | .error e => (items, some e) := by
  induction chunks generalizing p with
  | nil =>
    rw [SseParser.decode, Framing.feed, SseParser.finish]
    by_cases hempty : p.buffer = []
    · rw [if_pos hempty]
      dsimp only
      rw [if_pos hempty]
    · rw [if_neg hempty]
      dsimp only
      rw [if_neg hempty]
      cases p.parseFrameWithContext serde p.buffer <;> rfl
  | cons chunk chunks ih =>
    rw [SseParser.decode, Framing.feed, SseParser.push]
    cases hpush : sseFraming.push (p.parseFrameWithContext serde) (p.buffer ++ chunk) with
    | mk result rest =>
      cases result with
      | error e => rfl
      | ok items =>
        dsimp only
        rw [ih]
        have hparse : SseParser.parseFrameWithContext serde { p with buffer := rest } =
            p.parseFrameWithContext serde := rfl
        rw [hparse]
        cases hfeed : sseFraming.feed (p.parseFrameWithContext serde) rest chunks with
        | mk more out =>
          cases out with
          | error e => rfl
          | ok last =>
            dsimp only
            by_cases hempty : last = []
            · rw [if_pos hempty, if_pos hempty]
            · rw [if_neg hempty, if_neg hempty]
              cases p.parseFrameWithContext serde last with
              | error e => rfl
              | ok item =>
                dsimp only
                rw [append_assoc]

variable {E A : Type} {parse : List UInt8 → Except E (Option A)}

theorem feed_of_unmixed (hunmixed : Unmixed stream)
    (hblameless : Blameless parse (completeFrames stream)) {chunks : List (List UInt8)}
    (hflat : chunks.flatten = stream) :
    sseFraming.feed parse [] chunks =
      ((readAll parse (completeFrames stream)).1,
        match (readAll parse (completeFrames stream)).2 with
          | some e => .error e
          | none => .ok (lastPart stream)) := by
  unfold completeFrames lastPart at *
  rw [← drain_eq hunmixed] at hblameless ⊢
  subst hflat
  have hstable : sseFraming.Stable ([] ++ chunks.flatten) := hunmixed.stable
  exact hstable.feed_eq rfl hblameless

theorem feed_whole (hunmixed : Unmixed stream) :
    sseFraming.feed parse [] [stream] =
      match (readAll parse (completeFrames stream)).2 with
        | some e => ([], .error e)
        | none => ((readAll parse (completeFrames stream)).1, .ok (lastPart stream)) := by
  unfold completeFrames lastPart
  rw [← drain_eq hunmixed]
  exact Framing.feed_single stream

theorem readAll_allFrames (hnone : (readAll parse (completeFrames stream)).2 = none) :
    (readAll parse (allFrames stream)).1 = (readAll parse (completeFrames stream)).1 ++
      if lastPart stream = [] then []
      else match parse (lastPart stream) with
        | .ok item => item.toList
        | .error _ => [] := by
  unfold allFrames
  rw [Framing.readAll_append_none hnone]
  by_cases hempty : lastPart stream = []
  · rw [if_pos hempty, if_pos hempty]
    rfl
  · rw [if_neg hempty, if_neg hempty]
    dsimp only
    rw [readAll]
    cases parse (lastPart stream) with
    | error e => rfl
    | ok item =>
      dsimp only
      rw [readAll, append_nil]

theorem sseDelivers_iff {provider model : Option String} (hunmixed : Unmixed stream) :
    SseDelivers serde provider model stream ↔
      Blameless (SseParser.parseFrameWithContext serde ⟨[], provider, model⟩)
        (completeFrames stream) := by
  constructor
  · intro h
    rw [Framing.blameless_iff]
    intro hsome
    obtain ⟨e, he⟩ := Option.ne_none_iff_exists'.mp hsome
    have hwhole := h [stream] (by simp)
    rw [decode_eq, feed_whole hunmixed, he] at hwhole
    unfold allFrames at hwhole
    rw [Framing.readAll_append_some he] at hwhole
    exact hwhole.symm
  · intro hblameless chunks hflat
    rw [decode_eq, feed_of_unmixed hunmixed hblameless hflat]
    cases hread : (readAll (SseParser.parseFrameWithContext serde ⟨[], provider, model⟩)
        (completeFrames stream)).2 with
    | some e =>
      unfold allFrames
      rw [Framing.readAll_append_some hread]
    | none =>
      rw [readAll_allFrames hread]
      dsimp only
      by_cases hempty : lastPart stream = []
      · rw [if_pos hempty, if_pos hempty, append_nil]
      · rw [if_neg hempty, if_neg hempty]
        cases SseParser.parseFrameWithContext serde ⟨[], provider, model⟩ (lastPart stream) with
        | error e => rw [append_nil]
        | ok item => rfl

theorem received_eq (p : OpenAiSseParser) (chunks : List (List UInt8)) :
    p.received serde chunks = (sseFraming.feed (p.parse serde) p.buffer chunks).1 := by
  induction chunks generalizing p with
  | nil => rfl
  | cons chunk chunks ih =>
    rw [OpenAiSseParser.received, Framing.feed, OpenAiSseParser.push]
    cases hpush : sseFraming.push (p.parse serde) (p.buffer ++ chunk) with
    | mk result rest =>
      cases result with
      | error e => rfl
      | ok items =>
        dsimp only
        rw [ih]
        rfl

theorem feed_received {provider model : String}
    (hsilent : LastPartSilent serde provider model stream) :
    (readAll ((OpenAiSseParser.withContext provider model).parse serde)
      (completeFrames stream)).1 = chunksOf serde provider model stream := by
  unfold chunksOf
  cases hread : (readAll ((OpenAiSseParser.withContext provider model).parse serde)
      (completeFrames stream)).2 with
  | some e =>
    unfold allFrames
    rw [Framing.readAll_append_some hread]
  | none =>
    rw [readAll_allFrames hread]
    by_cases hempty : lastPart stream = []
    · rw [if_pos hempty, append_nil]
    · rw [if_neg hempty]
      have hnone := hsilent (Framing.wellFormed_iff.mpr hread) hempty
      cases hlast : (OpenAiSseParser.withContext provider model).parse serde
          (lastPart stream) with
      | error e => rw [append_nil]
      | ok item =>
        cases item with
        | none => exact (append_nil _).symm
        | some chunk => exact absurd hlast (hnone chunk)

theorem openAiDelivers_iff {provider model : String} (hunmixed : Unmixed stream) :
    OpenAiDelivers serde provider model stream ↔
      Blameless ((OpenAiSseParser.withContext provider model).parse serde)
          (completeFrames stream) ∧
        LastPartSilent serde provider model stream := by
  constructor
  · intro h
    have hwhole := h.received [stream] (by simp)
    rw [received_eq, show (OpenAiSseParser.withContext provider model).buffer = [] from rfl,
      feed_whole hunmixed] at hwhole
    unfold chunksOf at hwhole
    constructor
    · rw [Framing.blameless_iff]
      intro hsome
      obtain ⟨e, he⟩ := Option.ne_none_iff_exists'.mp hsome
      unfold allFrames at hwhole
      rw [he, Framing.readAll_append_some he] at hwhole
      exact hwhole.symm
    · intro hwell hne chunk hlast
      have hnone := Framing.wellFormed_iff.mp hwell
      rw [readAll_allFrames hnone, hnone, if_neg hne, hlast] at hwhole
      have hlen := congrArg List.length hwhole
      simp at hlen
  · rintro ⟨hblameless, hsilent⟩
    have hreceived (chunks : List (List UInt8)) (hflat : chunks.flatten = stream) :
        (OpenAiSseParser.withContext provider model).received serde chunks =
          chunksOf serde provider model stream := by
      rw [received_eq, show (OpenAiSseParser.withContext provider model).buffer = [] from rfl,
        feed_of_unmixed hunmixed hblameless hflat]
      exact feed_received hsilent
    refine ⟨hreceived, fun htranslates chunks chunks' hflat hflat' events outcome => ?_⟩
    obtain ⟨last, first, hingest⟩ : ∃ last first,
        (StreamState.new model).ingestChunks (chunksOf serde provider model stream) =
          some (last, first) := by
      cases hingest : (StreamState.new model).ingestChunks
          (chunksOf serde provider model stream) with
      | none =>
        rw [StreamState.events, hingest] at htranslates
        exact absurd rfl htranslates
      | some result => exact ⟨result.1, result.2, rfl⟩
    have hdeliver (pieces : List (List UInt8)) (hpieces : pieces.flatten = stream) :
        MessageStream.deliver serde pieces (MessageStream.new provider model) = _ :=
      MessageStream.deliver_eq pieces (MessageStream.new provider model)
        (by rw [← hreceived pieces hpieces] at hingest; exact hingest)
    have hfeed (pieces : List (List UInt8)) (hpieces : pieces.flatten = stream) :
        sseFraming.feed ((MessageStream.new provider model).parser.parse serde)
          (MessageStream.new provider model).parser.buffer pieces = _ :=
      feed_of_unmixed hunmixed hblameless hpieces
    rw [MessageStream.delivers_iff rfl, MessageStream.delivers_iff rfl, hdeliver chunks hflat,
      hdeliver chunks' hflat', hfeed chunks hflat, hfeed chunks' hflat']

end

/-- The frames of a stream do not depend on its chunks exactly when it is not
mixed. Of a stream that is not mixed, the decoders give all events, in whatever
chunks it comes, exactly when none precedes the first malformed frame and, for
the decoder of chunks, the last part has none. -/
theorem decoders_independent_iff (serde : Serde) (provider model : String)
    (stream : List UInt8) :
    (FramesIndependent stream ↔ Unmixed stream) ∧
      (Unmixed stream →
        (SseDelivers serde (some provider) (some model) stream ↔
          Blameless (SseParser.parseFrameWithContext serde ⟨[], some provider, some model⟩)
            (completeFrames stream)) ∧
        (OpenAiDelivers serde provider model stream ↔
          Blameless ((OpenAiSseParser.withContext provider model).parse serde)
              (completeFrames stream) ∧
            LastPartSilent serde provider model stream)) :=
  ⟨framesIndependent_iff stream, fun hunmixed =>
    ⟨sseDelivers_iff hunmixed, openAiDelivers_iff hunmixed⟩⟩

/-- A chunk in a frame without a blank line after it: `data: ` and a JSON object
with the field `id`. -/
def lastChunkStream : List UInt8 :=
  [100, 97, 116, 97, 58, 32, 123, 34, 105, 100, 34, 58, 34, 97, 34, 125]

def lastChunkSerde : Serde where
  streamEvent := fun _ => .error ⟨"missing field \x60type\x60"⟩
  value := fun payload =>
    if payload = "\x7b\"id\":\"a\"\x7d" then some (.object [("id", .string "a")]) else none
  chunk := fun payload =>
    if payload = "\x7b\"id\":\"a\"\x7d" then .ok ⟨"a", none, [], none⟩
    else .error ⟨"expected value"⟩

theorem last_chunk_dropped :
    ¬ ∀ (serde : Serde) (provider model : String) (stream : List UInt8),
      SseDelivers serde (some provider) (some model) stream ∧
        OpenAiDelivers serde provider model stream := by
  intro h
  have hreceived := (h lastChunkSerde "OpenAI" "model" lastChunkStream).2.received
    [lastChunkStream] (by simp)
  have hnext : sseFraming.next lastChunkStream = none := rfl
  have hfirst : streamFraming.next lastChunkStream = none := rfl
  have hparse : (OpenAiSseParser.withContext "OpenAI" "model").parse lastChunkSerde
      lastChunkStream = .ok (some ⟨"a", none, [], none⟩) := rfl
  have hchunks : chunksOf lastChunkSerde "OpenAI" "model" lastChunkStream =
      [⟨"a", none, [], none⟩] := by
    have hall : allFrames lastChunkStream = [lastChunkStream] := by
      unfold allFrames completeFrames lastPart
      rw [streamFraming.drain_none hfirst]
      rfl
    unfold chunksOf
    rw [hall, readAll, hparse]
    rfl
  have hnothing : (OpenAiSseParser.withContext "OpenAI" "model").received lastChunkSerde
      [lastChunkStream] = [] := by
    rw [received_eq, Framing.feed]
    have hbuffer : (OpenAiSseParser.withContext "OpenAI" "model").buffer ++ lastChunkStream =
      lastChunkStream := rfl
    rw [hbuffer, Framing.push_none hnext]
    rfl
  rw [hchunks, hnothing] at hreceived
  cases hreceived

end DbClinic.Api
