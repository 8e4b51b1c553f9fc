import Mathlib.Tactic

/-!
Streams of frames. A reader takes one item after the other off a stream, and each
item is handled before the next is read. The frames of a stream are what the
reader takes off it up to a clean end; a writer whose frames the reader takes
off whatever follows them is read back exactly.

A decoder cuts frames off a buffer. A chunk is appended to the buffer, the
frames that are complete now are cut off, and each of them is parsed; what is
left waits for the next chunk. When a frame that was cut off a buffer would be
cut off any longer buffer as well, the frames of a stream do not depend on how
it was cut into chunks.
-/

namespace DbClinic

open List

/-- How an item is taken off the front of a stream; `none` is a clean end. -/
structure FrameReader (B P E : Type*) where
  read : List B → Except E (Option (P × List B))
  shorter : ∀ {stream item rest}, read stream = .ok (some (item, rest)) →
    rest.length < stream.length

namespace FrameReader

variable {B P Q E S : Type*} (R : FrameReader B P E)

/-- The loop: the state, and how the loop ended. An item that cannot be handled
ends it. -/
def drive (handle : S → P → S × Except E Unit) (state : S) (stream : List B) :
    S × Except E Unit :=
  match _h : R.read stream with
  | .error error => (state, .error error)
  | .ok none => (state, .ok ())
  | .ok (some (item, rest)) =>
    match handle state item with
    | (next, .error error) => (next, .error error)
    | (next, .ok ()) => drive handle next rest
termination_by stream.length
decreasing_by exact R.shorter _h

inductive Frames : List B → List P → Prop where
  | done {stream : List B} (hread : R.read stream = .ok none) : Frames stream []
  | item {stream rest : List B} {item : P} {items : List P}
      (hread : R.read stream = .ok (some (item, rest))) (hrest : Frames rest items) :
      Frames stream (item :: items)

section Rules

variable {R} {handle : S → P → S × Except E Unit}

variable {stream : List B}

theorem drive_done (h : R.read stream = .ok none) (state : S) :
    R.drive handle state stream = (state, .ok ()) := by
  rw [drive]
  split
  · rename_i heq
    rw [h] at heq
    cases heq
  · rfl
  · rename_i heq
    rw [h] at heq
    cases heq

theorem drive_failed {error : E} (h : R.read stream = .error error) (state : S) :
    R.drive handle state stream = (state, .error error) := by
  rw [drive]
  split
  · rename_i heq
    rw [h] at heq
    cases heq
    rfl
  · rename_i heq
    rw [h] at heq
    cases heq
  · rename_i heq
    rw [h] at heq
    cases heq

theorem drive_item {rest : List B} {item : P} (h : R.read stream = .ok (some (item, rest)))
    {state next : S} (hhandle : handle state item = (next, .ok ())) :
    R.drive handle state stream = R.drive handle next rest := by
  conv_lhs => rw [drive]
  split
  · rename_i heq
    rw [h] at heq
    cases heq
  · rename_i heq
    rw [h] at heq
    cases heq
  · rename_i heq
    rw [h] at heq
    cases heq
    rw [hhandle]

theorem drive_frames {step : S → P → S} (hhandle : ∀ state item, handle state item =
    (step state item, .ok ())) {items : List P} (h : R.Frames stream items) (state : S) :
    R.drive handle state stream = (items.foldl step state, .ok ()) := by
  induction h generalizing state with
  | done hread => exact drive_done hread state
  | item hread _ ih =>
    rw [drive_item hread (hhandle state _), ih, foldl_cons]

end Rules

@[grind] def readAll (stream : List B) : List P × Except E Unit :=
  R.drive (fun items item => (items ++ [item], .ok ())) [] stream

section RoundTrip

variable {R} {encode : Q → List B} {value : Q → P}

theorem drive_encoded {handle : S → P → S × Except E Unit} {step : S → P → S}
    (hread : ∀ q rest, R.read (encode q ++ rest) = .ok (some (value q, rest)))
    (hhandle : ∀ state item, handle state item = (step state item, .ok ())) (qs : List Q)
    (rest : List B) (state : S) :
    R.drive handle state (qs.flatMap encode ++ rest) =
      R.drive handle ((qs.map value).foldl step state) rest := by
  induction qs generalizing state with
  | nil => rfl
  | cons q qs ih =>
    rw [flatMap_cons, append_assoc, drive_item (hread q _) (hhandle state _), ih]
    rfl

theorem foldl_push (items more : List P) :
    more.foldl (fun items item => items ++ [item]) items = items ++ more := by
  induction more generalizing items with
  | nil => simp
  | cons item more ih => rw [foldl_cons, ih, append_assoc, singleton_append]

theorem readAll_encoded (hread : ∀ q rest, R.read (encode q ++ rest) = .ok (some (value q, rest)))
    (qs : List Q) : R.readAll (qs.flatMap encode) = (qs.map value, (R.readAll []).2) := by
  have hall : R.drive (fun (items : List P) item => (items ++ [item], .ok ())) []
      (qs.flatMap encode ++ []) = _ := drive_encoded hread (fun _ _ => rfl) qs [] []
  rw [foldl_push, append_nil, nil_append] at hall
  rw [readAll, hall]
  cases hend : R.read [] with
  | error error => simp only [readAll, drive_failed hend]
  | ok taken =>
    cases taken with
    | none => simp only [readAll, drive_done hend]
    | some taken => exact absurd (R.shorter hend) (by simp)

theorem frames_encoded (hread : ∀ q rest, R.read (encode q ++ rest) = .ok (some (value q, rest)))
    (hend : R.read [] = .ok none) (qs : List Q) : R.Frames (qs.flatMap encode) (qs.map value) := by
  induction qs with
  | nil => exact .done hend
  | cons q qs ih => exact .item (hread q _) ih

end RoundTrip

end FrameReader

/-- How the first frame is cut off a buffer, if there is a complete one. -/
structure Framing (B : Type*) where
  next : List B → Option (List B × List B)
  cuts : ∀ {buffer frame rest}, next buffer = some (frame, rest) →
    ∃ front, front ≠ [] ∧ buffer = front ++ rest

namespace Framing

variable {B : Type*} (F : Framing B)

variable {buffer : List B}

variable {frame rest more : List B}

theorem next_shorter (h : F.next buffer = some (frame, rest)) :
    rest.length < buffer.length := by
  obtain ⟨front, hne, rfl⟩ := F.cuts h
  have hpos := length_pos_iff.mpr hne
  rw [length_append]
  omega

/-- All complete frames of a buffer, and what is left. -/
def drain (buffer : List B) : List (List B) × List B :=
  match _h : F.next buffer with
  | none => ([], buffer)
  | some (frame, rest) => (frame :: (drain rest).1, (drain rest).2)
termination_by buffer.length
decreasing_by all_goals exact F.next_shorter _h

theorem drain_none (h : F.next buffer = none) : F.drain buffer = ([], buffer) := by
  rw [drain]
  split
  · rfl
  · rename_i heq
    rw [h] at heq
    cases heq

theorem drain_some (h : F.next buffer = some (frame, rest)) :
    F.drain buffer = (frame :: (F.drain rest).1, (F.drain rest).2) := by
  rw [drain]
  split
  · rename_i heq
    rw [h] at heq
    cases heq
  · rename_i heq
    rw [h] at heq
    cases heq
    rfl

theorem next_drain (buffer : List B) : F.next (F.drain buffer).2 = none := by
  induction hlen : buffer.length using Nat.strong_induction_on generalizing buffer with
  | _ n ih =>
    cases h : F.next buffer with
    | none => rw [F.drain_none h, h]
    | some cut =>
      obtain ⟨frame, rest⟩ := cut
      rw [F.drain_some h]
      exact ih rest.length (hlen ▸ F.next_shorter h) rest rfl

/-- The frames of a stream that comes in chunks, and what is left at its end. -/
def frames : List B → List (List B) → List (List B) × List B
  | buffer, [] => ([], buffer)
  | buffer, chunk :: chunks =>
    let first := F.drain (buffer ++ chunk)
    let others := frames first.2 chunks
    (first.1 ++ others.1, others.2)

/-- A frame cut off a part of the stream is cut off every longer part. -/
def Stable (stream : List B) : Prop :=
  ∀ front buffer more, stream = front ++ buffer ++ more →
    ∀ frame rest, F.next buffer = some (frame, rest) →
      F.next (buffer ++ more) = some (frame, rest ++ more)

variable {F}

theorem Stable.tail {front stream : List B} (h : F.Stable (front ++ stream)) : F.Stable stream := by
  intro front' buffer more heq
  refine h (front ++ front') buffer more ?_
  rw [heq, ← append_assoc, ← append_assoc]

theorem Stable.drain_append (h : F.Stable (buffer ++ more)) :
    F.drain (buffer ++ more) =
      ((F.drain buffer).1 ++ (F.drain ((F.drain buffer).2 ++ more)).1,
        (F.drain ((F.drain buffer).2 ++ more)).2) := by
  induction hlen : buffer.length using Nat.strong_induction_on generalizing buffer with
  | _ n ih =>
    cases hnext : F.next buffer with
    | none =>
      rw [F.drain_none hnext]
      rfl
    | some cut =>
      obtain ⟨frame, rest⟩ := cut
      have hlonger := h [] buffer more rfl frame rest hnext
      obtain ⟨front, -, heq⟩ := F.cuts hnext
      have hrest : F.Stable (rest ++ more) := by
        rw [heq, append_assoc] at h
        exact h.tail
      rw [F.drain_some hlonger, F.drain_some hnext,
        ih rest.length (hlen ▸ F.next_shorter hnext) hrest rfl]
      rfl

theorem Stable.drain_rest (h : F.Stable (buffer ++ more)) :
    F.Stable ((F.drain buffer).2 ++ more) := by
  induction hlen : buffer.length using Nat.strong_induction_on generalizing buffer with
  | _ n ih =>
    cases hnext : F.next buffer with
    | none =>
      rw [F.drain_none hnext]
      exact h
    | some cut =>
      obtain ⟨frame, rest⟩ := cut
      obtain ⟨front, -, heq⟩ := F.cuts hnext
      rw [F.drain_some hnext]
      refine ih rest.length (hlen ▸ F.next_shorter hnext) ?_ rfl
      rw [heq, append_assoc] at h
      exact h.tail

theorem Stable.frames_eq {chunks : List (List B)} (h : F.Stable (buffer ++ chunks.flatten))
    (hnone : F.next buffer = none) :
    F.frames buffer chunks = F.drain (buffer ++ chunks.flatten) := by
  induction chunks generalizing buffer with
  | nil =>
    rw [flatten_nil, append_nil, F.drain_none hnone]
    rfl
  | cons chunk chunks ih =>
    rw [flatten_cons, ← append_assoc] at h ⊢
    rw [h.drain_append, frames, ih h.drain_rest (F.next_drain _)]

section Parse

variable {E A : Type*} (parse : List B → Except E (Option A))

@[grind] def readAll : List (List B) → List A × Option E
  | [] => ([], none)
  | frame :: rest =>
    match parse frame with
    | .error e => ([], some e)
    | .ok item => (item.toList ++ (readAll rest).1, (readAll rest).2)

def WellFormed (frames : List (List B)) : Prop := ∀ frame ∈ frames, ∀ e, parse frame ≠ .error e

/-- No frame before the first malformed one has an item. -/
def Blameless (frames : List (List B)) : Prop :=
  ∀ before frame after e, frames = before ++ frame :: after → parse frame = .error e →
    WellFormed parse before → ∀ other ∈ before, parse other = .ok none

variable {parse}

variable {frames chunks : List (List B)} {e : E}

theorem wellFormed_iff :
    WellFormed parse frames ↔ (readAll parse frames).2 = none := by
  induction frames with
  | nil => exact ⟨fun _ => rfl, fun _ frame hmem => absurd hmem not_mem_nil⟩
  | cons frame rest ih =>
    rw [readAll]
    cases hparse : parse frame with
    | error e =>
      constructor
      · intro h
        exact absurd hparse (h frame mem_cons_self e)
      · intro h
        cases h
    | ok item =>
      dsimp only
      rw [← ih]
      constructor
      · intro h other hmem
        exact h other (mem_cons_of_mem frame hmem)
      · intro h other hmem
        rcases mem_cons.mp hmem with rfl | hmem
        · intro e he
          rw [hparse] at he
          cases he
        · exact h other hmem

theorem readAll_eq_nil_iff (h : WellFormed parse frames) :
    (readAll parse frames).1 = [] ↔ ∀ frame ∈ frames, parse frame = .ok none := by
  induction frames with
  | nil => exact ⟨fun _ frame hmem => absurd hmem not_mem_nil, fun _ => rfl⟩
  | cons frame rest ih =>
    have hrest := ih fun other hmem => h other (mem_cons_of_mem frame hmem)
    rw [readAll]
    cases hparse : parse frame with
    | error e => exact absurd hparse (h frame mem_cons_self e)
    | ok item =>
      dsimp only
      rw [append_eq_nil_iff, hrest, forall_mem_cons, hparse]
      cases item <;> simp

variable {xs : List (List B)} {chunk : List B}

theorem readAll_append_none (h : (readAll parse xs).2 = none) (ys : List (List B)) :
    readAll parse (xs ++ ys) =
      ((readAll parse xs).1 ++ (readAll parse ys).1, (readAll parse ys).2) := by
  induction xs with
  | nil => rfl
  | cons frame rest ih =>
    rw [cons_append, readAll, readAll]
    rw [readAll] at h
    cases hparse : parse frame with
    | error e =>
      rw [hparse] at h
      cases h
    | ok item =>
      rw [hparse] at h
      dsimp only
      rw [ih h, append_assoc]

theorem readAll_append_some (h : (readAll parse xs).2 = some e) (ys : List (List B)) :
    readAll parse (xs ++ ys) = readAll parse xs := by
  induction xs with
  | nil => cases h
  | cons frame rest ih =>
    rw [cons_append, readAll, readAll]
    rw [readAll] at h
    cases hparse : parse frame with
    | error e => rfl
    | ok item =>
      rw [hparse] at h
      dsimp only
      rw [ih h]

theorem exists_malformed (h : (readAll parse frames).2 = some e) :
    ∃ before frame after, frames = before ++ frame :: after ∧ parse frame = .error e ∧
      (readAll parse before).2 = none ∧ (readAll parse before).1 = (readAll parse frames).1 := by
  induction frames with
  | nil => cases h
  | cons frame rest ih =>
    rw [readAll] at h
    cases hparse : parse frame with
    | error e' =>
      rw [hparse] at h
      cases h
      refine ⟨[], frame, rest, rfl, hparse, rfl, ?_⟩
      rw [readAll, readAll, hparse]
    | ok item =>
      rw [hparse] at h
      obtain ⟨before, frame', after, heq, hmalformed, hnone, hsame⟩ := ih h
      refine ⟨frame :: before, frame', after, by rw [heq]; rfl, hmalformed, ?_, ?_⟩
      · rw [readAll, hparse]
        exact hnone
      · rw [readAll, readAll, hparse]
        dsimp only
        rw [hsame]

theorem blameless_iff :
    Blameless parse frames ↔
      ((readAll parse frames).2 ≠ none → (readAll parse frames).1 = []) := by
  constructor
  · intro h hsome
    obtain ⟨e, he⟩ := Option.ne_none_iff_exists'.mp hsome
    obtain ⟨before, frame, after, heq, hmalformed, hnone, hsame⟩ := exists_malformed he
    have hwell := wellFormed_iff.mpr hnone
    rw [← hsame, readAll_eq_nil_iff hwell]
    exact h before frame after e heq hmalformed hwell
  · rintro h before frame after e rfl hmalformed hwell
    have hread : readAll parse (before ++ frame :: after) =
        ((readAll parse before).1, some e) := by
      rw [readAll_append_none (wellFormed_iff.mp hwell), readAll, hmalformed]
      dsimp only
      rw [append_nil]
    have hempty := h (by rw [hread]; nofun)
    rw [hread] at hempty
    exact (readAll_eq_nil_iff hwell).mp hempty

variable (F parse)

/-- Cut off and parse the complete frames of a buffer. A malformed frame ends
the loop, and the items of the frames before it are not returned. -/
def push (buffer : List B) : Except E (List A) × List B :=
  match _h : F.next buffer with
  | none => (.ok [], buffer)
  | some (frame, rest) =>
    match parse frame with
    | .error e => (.error e, rest)
    | .ok item => ((push rest).1.map (item.toList ++ ·), (push rest).2)
termination_by buffer.length
decreasing_by all_goals exact F.next_shorter _h

variable {F parse}

theorem push_none (h : F.next buffer = none) :
    F.push parse buffer = (.ok [], buffer) := by
  rw [push]
  split
  · rfl
  · rename_i heq
    rw [h] at heq
    cases heq

theorem push_some (h : F.next buffer = some (frame, rest)) :
    F.push parse buffer =
      match parse frame with
      | .error e => (.error e, rest)
      | .ok item => ((F.push parse rest).1.map (item.toList ++ ·), (F.push parse rest).2) := by
  rw [push]
  split
  · rename_i heq
    rw [h] at heq
    cases heq
  · rename_i heq
    rw [h] at heq
    cases heq
    rfl

variable (F parse) in
theorem push_eq (buffer : List B) :
    (F.push parse buffer).1 =
        (match (readAll parse (F.drain buffer).1).2 with
          | some e => .error e
          | none => .ok (readAll parse (F.drain buffer).1).1) ∧
      ((readAll parse (F.drain buffer).1).2 = none →
        (F.push parse buffer).2 = (F.drain buffer).2) := by
  induction hlen : buffer.length using Nat.strong_induction_on generalizing buffer with
  | _ n ih =>
    cases hnext : F.next buffer with
    | none =>
      rw [push_none hnext, F.drain_none hnext]
      exact ⟨rfl, fun _ => rfl⟩
    | some cut =>
      obtain ⟨frame, rest⟩ := cut
      have hrest := ih rest.length (hlen ▸ F.next_shorter hnext) rest rfl
      rw [push_some hnext, F.drain_some hnext, readAll]
      cases hparse : parse frame with
      | error e => exact ⟨rfl, fun h => nomatch h⟩
      | ok item =>
        dsimp only
        refine ⟨?_, hrest.2⟩
        rw [hrest.1]
        cases (readAll parse (F.drain rest).1).2 <;> rfl

variable (F parse)

/-- The items that are returned push by push, and the error of the push that
fails or what is left in the buffer. -/
def feed : List B → List (List B) → List A × Except E (List B)
  | buffer, [] => ([], .ok buffer)
  | buffer, chunk :: chunks =>
    match F.push parse (buffer ++ chunk) with
    | (.error e, _) => ([], .error e)
    | (.ok items, rest) => (items ++ (feed rest chunks).1, (feed rest chunks).2)

variable {F parse}

theorem feed_cons_error (h : (readAll parse (F.drain (buffer ++ chunk)).1).2 = some e) :
    F.feed parse buffer (chunk :: chunks) = ([], .error e) := by
  have hpush := (F.push_eq parse (buffer ++ chunk)).1
  rw [h] at hpush
  cases hres : F.push parse (buffer ++ chunk) with
  | mk result rest =>
    rw [hres] at hpush
    dsimp only at hpush
    rw [feed, hres, hpush]

theorem feed_cons_ok (h : (readAll parse (F.drain (buffer ++ chunk)).1).2 = none) :
    F.feed parse buffer (chunk :: chunks) =
      ((readAll parse (F.drain (buffer ++ chunk)).1).1 ++
          (F.feed parse (F.drain (buffer ++ chunk)).2 chunks).1,
        (F.feed parse (F.drain (buffer ++ chunk)).2 chunks).2) := by
  obtain ⟨hpush, hleft⟩ := F.push_eq parse (buffer ++ chunk)
  have hleft := hleft h
  rw [h] at hpush
  cases hres : F.push parse (buffer ++ chunk) with
  | mk result rest =>
    rw [hres] at hpush hleft
    dsimp only at hpush hleft
    rw [feed, hres, hpush, hleft]

theorem Stable.feed_eq (h : F.Stable (buffer ++ chunks.flatten)) (hnone : F.next buffer = none)
    (hblameless : Blameless parse (F.drain (buffer ++ chunks.flatten)).1) :
    F.feed parse buffer chunks =
      ((readAll parse (F.drain (buffer ++ chunks.flatten)).1).1,
        match (readAll parse (F.drain (buffer ++ chunks.flatten)).1).2 with
          | some e => .error e
          | none => .ok (F.drain (buffer ++ chunks.flatten)).2) := by
  induction chunks generalizing buffer with
  | nil =>
    rw [flatten_nil, append_nil, F.drain_none hnone]
    rfl
  | cons chunk chunks ih =>
    rw [flatten_cons, ← append_assoc] at h hblameless ⊢
    rw [h.drain_append] at hblameless ⊢
    dsimp only at hblameless ⊢
    cases hfirst : (readAll parse (F.drain (buffer ++ chunk)).1).2 with
    | some e =>
      have hempty := blameless_iff.mp hblameless
      rw [readAll_append_some hfirst, hfirst] at hempty
      rw [feed_cons_error hfirst, readAll_append_some hfirst, hfirst, hempty nofun]
    | none =>
      have hrest : Blameless parse
          (F.drain ((F.drain (buffer ++ chunk)).2 ++ chunks.flatten)).1 := by
        rw [blameless_iff] at hblameless ⊢
        rw [readAll_append_none hfirst] at hblameless
        intro hsome
        exact (append_eq_nil_iff.mp (hblameless hsome)).2
      rw [feed_cons_ok hfirst, ih h.drain_rest (F.next_drain _) hrest,
        readAll_append_none hfirst]

theorem feed_single (stream : List B) :
    F.feed parse [] [stream] =
      match (readAll parse (F.drain stream).1).2 with
        | some e => ([], .error e)
        | none => ((readAll parse (F.drain stream).1).1, .ok (F.drain stream).2) := by
  cases h : (readAll parse (F.drain stream).1).2 with
  | some e => exact feed_cons_error h
  | none =>
    have hfirst : (readAll parse (F.drain ([] ++ stream)).1).2 = none := h
    rw [feed_cons_ok hfirst, feed, append_nil]
    rfl

end Parse

end Framing

end DbClinic
