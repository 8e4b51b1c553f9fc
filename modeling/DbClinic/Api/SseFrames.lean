import DbClinic.Lib.Framing

/-!
The frames of a server-sent event stream. Both decoders look for a blank line
of line feeds in the whole buffer first, and for one of carriage returns and
line feeds only if there is none. So the frames of a stream do not depend on
its chunks exactly if no blank line of line feeds comes after one of the other
style.
-/

namespace DbClinic.Api

open List

/-- `slice::windows(n).position(|window| window == separator)`. -/
def position (separator : List UInt8) : List UInt8 → Option Nat
  | [] => none
  | b :: rest =>
    if separator.isPrefixOf (b :: rest) then some 0 else (position separator rest).map (· + 1)

/-- A blank line of line feeds, `\n\n`. -/
def lfLf : List UInt8 := [10, 10]

/-- A blank line of carriage returns and line feeds, `\r\n\r\n`. -/
def crLfCrLf : List UInt8 := [13, 10, 13, 10]

/-- The first frame of the buffer, and what is after its blank line. -/
def nextFrame (buffer : List UInt8) : Option (List UInt8 × List UInt8) :=
  let separator := ((position lfLf buffer).map (·, 2)).or ((position crLfCrLf buffer).map (·, 4))
  separator.map fun found => (buffer.take found.1, buffer.drop (found.1 + found.2))

variable {buffer separator before after stream : List UInt8} {p : Nat}

theorem position_of_append (hne : separator ≠ []) (before after : List UInt8) :
    ∃ p, position separator (before ++ separator ++ after) = some p ∧ p ≤ before.length := by
  induction before with
  | nil =>
    cases separator with
    | nil => exact absurd rfl hne
    | cons b rest =>
      refine ⟨0, ?_, Nat.le_refl _⟩
      rw [nil_append, cons_append, position, if_pos]
      exact isPrefixOf_iff_prefix.mpr (prefix_append (b :: rest) after)
  | cons b before ih =>
    obtain ⟨p, hp, hle⟩ := ih
    rw [cons_append, cons_append, position]
    split
    · exact ⟨0, rfl, Nat.zero_le _⟩
    · rw [hp]
      exact ⟨p + 1, rfl, Nat.succ_le_succ hle⟩

theorem position_eq (h : position separator buffer = some p) :
    ∃ before after, buffer = before ++ separator ++ after ∧ before.length = p := by
  induction buffer generalizing p with
  | nil => cases h
  | cons b rest ih =>
    rw [position] at h
    split at h
    · rename_i hpre
      cases h
      obtain ⟨after, hafter⟩ := isPrefixOf_iff_prefix.mp hpre
      exact ⟨[], after, hafter.symm, rfl⟩
    · obtain ⟨q, hq, rfl⟩ := Option.map_eq_some_iff.mp h
      obtain ⟨before, after, hrest, hlen⟩ := ih hq
      refine ⟨b :: before, after, ?_, ?_⟩
      · rw [hrest]
        rfl
      · rw [length_cons, hlen]

theorem position_le (h : position separator buffer = some p) (hne : separator ≠ [])
    (heq : buffer = before ++ separator ++ after) : p ≤ before.length := by
  obtain ⟨q, hq, hle⟩ := position_of_append hne before after
  rw [heq, hq, Option.some.injEq] at h
  omega

theorem position_none (h : position separator buffer = none) (hne : separator ≠ []) :
    buffer ≠ before ++ separator ++ after := by
  rintro rfl
  obtain ⟨q, hq, -⟩ := position_of_append hne before after
  rw [hq] at h
  cases h

theorem occurrence_of_append {more : List UInt8}
    (heq : buffer ++ more = before ++ separator ++ after)
    (hle : before.length + separator.length ≤ buffer.length) :
    ∃ rest, buffer = before ++ separator ++ rest := by
  have hpre : before ++ separator <+: buffer := by
    refine prefix_of_prefix_length_le ⟨after, heq.symm⟩ (prefix_append buffer more) ?_
    rw [length_append]
    exact hle
  obtain ⟨rest, hrest⟩ := hpre
  exact ⟨rest, hrest.symm⟩

theorem position_append (hne : separator ≠ []) (h : position separator buffer = some p)
    (more : List UInt8) :
    position separator (buffer ++ more) = some p := by
  obtain ⟨before, after, heq, hlen⟩ := position_eq h
  obtain ⟨q, hq, hle⟩ := position_of_append hne before (after ++ more)
  rw [← append_assoc, ← heq] at hq
  obtain ⟨before', after', heq', hlen'⟩ := position_eq hq
  have hbound : before'.length + separator.length ≤ buffer.length := by
    rw [heq, length_append, length_append]
    omega
  obtain ⟨rest, hrest⟩ := occurrence_of_append heq' hbound
  have hmin := position_le h hne hrest
  have hsame : q = p := by omega
  rw [hq, hsame]

theorem nextFrame_lf (h : position lfLf buffer = some p) :
    nextFrame buffer = some (buffer.take p, buffer.drop (p + 2)) := by
  unfold nextFrame
  rw [h]
  rfl

theorem nextFrame_crlf (hlf : position lfLf buffer = none) (h : position crLfCrLf buffer = some p) :
    nextFrame buffer = some (buffer.take p, buffer.drop (p + 4)) := by
  unfold nextFrame
  rw [hlf, h]
  rfl

theorem nextFrame_none (hlf : position lfLf buffer = none)
    (hcrlf : position crLfCrLf buffer = none) :
    nextFrame buffer = none := by
  unfold nextFrame
  rw [hlf, hcrlf]
  rfl

theorem nextFrame_cases {frame rest : List UInt8} (h : nextFrame buffer = some (frame, rest)) :
    (∃ p, position lfLf buffer = some p ∧ frame = buffer.take p ∧ rest = buffer.drop (p + 2)) ∨
      (position lfLf buffer = none ∧ ∃ p, position crLfCrLf buffer = some p ∧
        frame = buffer.take p ∧ rest = buffer.drop (p + 4)) := by
  cases hlf : position lfLf buffer with
  | some p =>
    rw [nextFrame_lf hlf] at h
    cases h
    exact .inl ⟨p, rfl, rfl, rfl⟩
  | none =>
    cases hcrlf : position crLfCrLf buffer with
    | some p =>
      rw [nextFrame_crlf hlf hcrlf] at h
      cases h
      exact .inr ⟨rfl, p, rfl, rfl, rfl⟩
    | none =>
      rw [nextFrame_none hlf hcrlf] at h
      cases h

theorem length_of_position (h : position separator buffer = some p) :
    p + separator.length ≤ buffer.length := by
  obtain ⟨before, after, heq, hlen⟩ := position_eq h
  rw [heq, length_append, length_append]
  omega

/-- The framing both decoders use. -/
def sseFraming : Framing UInt8 where
  next := nextFrame
  cuts := by
    intro buffer frame rest h
    rcases nextFrame_cases h with ⟨p, hp, -, rfl⟩ | ⟨-, p, hp, -, rfl⟩
    · have hlen := length_of_position hp
      refine ⟨buffer.take (p + 2), ?_, (take_append_drop _ _).symm⟩
      rw [Ne, ← length_eq_zero_iff, length_take]
      change p + 2 ≤ buffer.length at hlen
      omega
    · have hlen := length_of_position hp
      refine ⟨buffer.take (p + 4), ?_, (take_append_drop _ _).symm⟩
      rw [Ne, ← length_eq_zero_iff, length_take]
      change p + 4 ≤ buffer.length at hlen
      omega

/-- No blank line of line feeds comes after, or ends, one of the other style. -/
def Unmixed (stream : List UInt8) : Prop :=
  ∀ before after, stream = before ++ crLfCrLf ++ after → ¬ lfLf <:+: 10 :: after

theorem Unmixed.stable (h : Unmixed stream) : sseFraming.Stable stream := by
  rintro front buffer more rfl frame rest hnext
  change nextFrame (buffer ++ more) = some (frame, rest ++ more)
  rcases nextFrame_cases hnext with ⟨p, hp, rfl, rfl⟩ | ⟨hlf, p, hp, rfl, rfl⟩
  · have hlen : p + 2 ≤ buffer.length := length_of_position hp
    rw [nextFrame_lf (position_append (by decide) hp more), take_append_of_le_length (by omega),
      drop_append_of_le_length hlen]
  · have hlen : p + 4 ≤ buffer.length := length_of_position hp
    have hlf' : position lfLf (buffer ++ more) = none := by
      cases hsome : position lfLf (buffer ++ more) with
      | none => rfl
      | some q =>
        exfalso
        obtain ⟨before, after, heq, hbefore⟩ := position_eq hp
        obtain ⟨before', after', heq', hbefore'⟩ := position_eq hsome
        have hend : buffer.length < before'.length + 2 := by
          by_contra hle
          obtain ⟨rest, hrest⟩ := occurrence_of_append heq' (Nat.le_of_not_lt hle)
          exact position_none hlf (by decide) hrest
        -- the line feeds end in the new part, so they begin after the other blank line
        have hinfix : lfLf <:+: 10 :: (after ++ more) := by
          have hsplit : buffer ++ more = (before ++ [13, 10, 13]) ++ (10 :: (after ++ more)) := by
            rw [heq]
            simp [crLfCrLf]
          have hdrop := congrArg (List.drop (before ++ [13, 10, 13]).length)
            (hsplit.symm.trans heq')
          rw [drop_left, append_assoc, drop_append_of_le_length (by
            simp only [length_append, length_cons, length_nil]
            omega)] at hdrop
          exact ⟨_, after', by rw [append_assoc]; exact hdrop.symm⟩
        refine h (front ++ before) (after ++ more) ?_ hinfix
        rw [heq]
        simp only [append_assoc]
    rw [nextFrame_crlf hlf' (position_append (by decide) hp more),
      take_append_of_le_length (by omega), drop_append_of_le_length hlen]

theorem position_apart (hcrlf : stream = before ++ crLfCrLf ++ after)
    (hlf : position lfLf stream = some p) :
    before.length + 3 ≤ p ∨ p + 2 ≤ before.length := by
  obtain ⟨front, back, heq, hlen⟩ := position_eq hlf
  have hlf0 : stream[p]? = some 10 := by
    rw [heq, ← hlen, append_assoc, getElem?_append_right (Nat.le_refl _)]
    simp [lfLf]
  have hlf1 : stream[p + 1]? = some 10 := by
    rw [heq, ← hlen, append_assoc, getElem?_append_right (Nat.le_succ _)]
    simp [lfLf]
  have hcr (i : Nat) (hi : i < 4) : stream[before.length + i]? = crLfCrLf[i]? := by
    rw [hcrlf, append_assoc, getElem?_append_right (Nat.le_add_right _ _),
      Nat.add_sub_cancel_left, getElem?_append_left hi]
  by_contra hnot
  push Not at hnot
  have hcases : p + 1 = before.length ∨ p = before.length ∨ p = before.length + 1 ∨
      p = before.length + 2 := by omega
  rcases hcases with h | h | h | h
  · have h0 := hcr 0 (by decide)
    rw [Nat.add_zero, ← h, hlf1] at h0
    cases h0
  · have h0 := hcr 0 (by decide)
    rw [Nat.add_zero, ← h, hlf0] at h0
    cases h0
  · have h2 := hcr 2 (by decide)
    rw [show before.length + 2 = p + 1 by omega, hlf1] at h2
    cases h2
  · have h2 := hcr 2 (by decide)
    rw [← h, hlf0] at h2
    cases h2

theorem frames_of_mixed (h : ¬ Unmixed stream) :
    ∃ chunks chunks', chunks.flatten = stream ∧ chunks'.flatten = stream ∧
      (sseFraming.frames [] chunks).1 ≠ (sseFraming.frames [] chunks').1 := by
  induction hsize : stream.length using Nat.strong_induction_on generalizing stream with
  | _ n ih =>
    simp only [Unmixed, not_forall, not_not] at h
    obtain ⟨before, after, heq, hinfix⟩ := h
    obtain ⟨x, y, hxy⟩ := hinfix
    have hlfStream : stream = (before ++ [13, 10, 13] ++ x) ++ lfLf ++ y := by
      rw [heq, crLfCrLf]
      simp only [append_assoc, cons_append, nil_append]
      rw [← hxy]
      simp
    obtain ⟨p, hp, -⟩ := position_of_append (show lfLf ≠ [] by decide)
      (before ++ [13, 10, 13] ++ x) y
    rw [← hlfStream] at hp
    have hlen : p + 2 ≤ stream.length := length_of_position hp
    have hfirst : sseFraming.next stream = some (stream.take p, stream.drop (p + 2)) :=
      nextFrame_lf hp
    rcases position_apart heq hp with hbefore | hafter
    · -- the chunk up to the carriage returns ends its frame before the line feeds do
      let head := before ++ crLfCrLf
      have hhead : stream = head ++ after := heq
      have hlf : position lfLf head = none := by
        cases hsome : position lfLf head with
        | none => rfl
        | some q =>
          have hq := position_append (show lfLf ≠ [] by decide) hsome after
          rw [← hhead, hp, Option.some.injEq] at hq
          have hle : q + 2 ≤ head.length := length_of_position hsome
          have hsum : head.length = before.length + 4 := length_append
          omega
      obtain ⟨q, hq, hle⟩ := position_of_append (show crLfCrLf ≠ [] by decide) before []
      rw [append_nil] at hq
      have hnext : sseFraming.next head = some (head.take q, head.drop (q + 4)) :=
        nextFrame_crlf hlf hq
      refine ⟨[stream], [head, after], by simp, by simp [hhead], ?_⟩
      have hwhole : (sseFraming.frames [] [stream]).1 =
          stream.take p :: ((sseFraming.drain (stream.drop (p + 2))).1 ++ []) := by
        rw [Framing.frames, nil_append, sseFraming.drain_some hfirst]
        rfl
      have hparts : (sseFraming.frames [] [head, after]).1 =
          head.take q :: ((sseFraming.drain (head.drop (q + 4))).1 ++
            (sseFraming.frames (sseFraming.drain (head.drop (q + 4))).2 [after]).1) := by
        rw [Framing.frames, nil_append, sseFraming.drain_some hnext]
        rfl
      rw [hwhole, hparts]
      intro hsame
      have hframe := congrArg List.length (List.cons.inj hsame).1
      have hsum : head.length = before.length + 4 := length_append
      rw [length_take, length_take] at hframe
      omega
    · have hrest : ¬ Unmixed (stream.drop (p + 2)) := by
        intro hunmixed
        refine hunmixed (before.drop (p + 2)) after ?_ ⟨x, y, hxy⟩
        rw [heq, append_assoc, drop_append_of_le_length hafter, append_assoc]
      obtain ⟨chunks, chunks', hflat, hflat', hne⟩ :=
        ih (stream.drop (p + 2)).length (by rw [length_drop]; omega) hrest rfl
      have hhead : position lfLf (stream.take (p + 2)) = some p := by
        obtain ⟨front, back, hsplit, hfront⟩ := position_eq hp
        have htake : stream.take (p + 2) = front ++ lfLf ++ [] := by
          rw [append_nil, hsplit, take_append_of_le_length (by
            rw [length_append, hfront]; exact Nat.le_refl _), take_of_length_le]
          rw [length_append, hfront]
          exact Nat.le_refl _
        obtain ⟨q, hq, -⟩ := position_of_append (show lfLf ≠ [] by decide) front []
        rw [← htake] at hq
        have hlonger := position_append (show lfLf ≠ [] by decide) hq (stream.drop (p + 2))
        rw [take_append_drop, hp] at hlonger
        exact hlonger ▸ hq
      have hnext : sseFraming.next (stream.take (p + 2)) = some (stream.take p, []) := by
        have hcut : sseFraming.next (stream.take (p + 2)) = _ := nextFrame_lf hhead
        rw [hcut, take_take, Nat.min_eq_left (Nat.le_add_right p 2), drop_eq_nil_of_le]
        rw [length_take]
        exact Nat.min_le_left _ _
      have hframes (rest : List (List UInt8)) :
          (sseFraming.frames [] (stream.take (p + 2) :: rest)).1 =
            stream.take p :: (sseFraming.frames [] rest).1 := by
        have hnone : sseFraming.next [] = none := rfl
        rw [Framing.frames, nil_append, sseFraming.drain_some hnext,
          sseFraming.drain_none hnone]
        rfl
      refine ⟨stream.take (p + 2) :: chunks, stream.take (p + 2) :: chunks', ?_, ?_, ?_⟩
      · rw [flatten_cons, hflat, take_append_drop]
      · rw [flatten_cons, hflat', take_append_drop]
      · rw [hframes, hframes]
        intro hsame
        exact hne (List.cons.inj hsame).2

/-- The frames of a stream are the same for all chunks it may come in. -/
def FramesIndependent (stream : List UInt8) : Prop :=
  ∀ chunks chunks', chunks.flatten = stream → chunks'.flatten = stream →
    sseFraming.frames [] chunks = sseFraming.frames [] chunks'

theorem framesIndependent_iff (stream : List UInt8) :
    FramesIndependent stream ↔ Unmixed stream := by
  constructor
  · intro h
    by_contra hmixed
    obtain ⟨chunks, chunks', hflat, hflat', hne⟩ := frames_of_mixed hmixed
    exact hne (congrArg Prod.fst (h chunks chunks' hflat hflat'))
  · intro h chunks chunks' hflat hflat'
    have hnone : sseFraming.next [] = none := rfl
    have hstable := h.stable
    have hframes := (show sseFraming.Stable ([] ++ chunks.flatten) from hflat ▸ hstable).frames_eq
      hnone
    have hframes' := (show sseFraming.Stable ([] ++ chunks'.flatten) from
      hflat' ▸ hstable).frames_eq hnone
    rw [hframes, hframes', hflat, hflat']

end DbClinic.Api
