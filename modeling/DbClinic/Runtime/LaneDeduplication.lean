import DbClinic.Lib.Occurrences
import DbClinic.Runtime.LaneReconciliation

/-!
The deduplication of terminal events by their fingerprints, and what the reconciliation of
the events that stay reports.
-/

namespace DbClinic.Runtime.Lane

open FirstOccurrences List

variable {D : Type}

def dedupeTerminalEvents (events : List (LaneEvent D)) : List (LaneEvent D) :=
  go [] events
where
  go (seenFingerprints : List String) : List (LaneEvent D) → List (LaneEvent D)
    | [] => []
    | event :: events =>
      if isTerminalEvent event.event then
        match event.metadata.eventFingerprint with
        | some fp =>
          if fp ∈ seenFingerprints then go seenFingerprints events
          else event :: go (fp :: seenFingerprints) events
        | none => event :: go seenFingerprints events
      else event :: go seenFingerprints events

def terminalFingerprint (e : LaneEvent D) : Option String :=
  if isTerminalEvent e.event then e.metadata.eventFingerprint else none

theorem dedupe_eq (events : List (LaneEvent D)) :
    dedupeTerminalEvents events = firsts terminalFingerprint [] events := by
  have hgo : ∀ seen, dedupeTerminalEvents.go seen events =
      firsts terminalFingerprint seen events := by
    induction events with
    | nil => exact fun _ => rfl
    | cons e events ih =>
      intro seen
      cases hterminal : isTerminalEvent e.event with
      | false => simp [dedupeTerminalEvents.go, firsts, terminalFingerprint, hterminal, ih]
      | true =>
        cases hfp : e.metadata.eventFingerprint with
        | none =>
          simp [dedupeTerminalEvents.go, firsts, terminalFingerprint, hterminal, hfp, ih]
        | some fp =>
          simp [dedupeTerminalEvents.go, firsts, terminalFingerprint, hterminal, hfp, ih]
  exact hgo []

/-- All events but terminal ones that repeat the payload of an earlier one. -/
structure Deduplicated (sha : Digest D) (events kept : List (LaneEvent D)) : Prop where
  sublist : kept.Sublist events
  others : (kept.filter fun e => !isTerminalEvent e.event) =
    events.filter fun e => !isTerminalEvent e.event
  first : ∀ before e after, events = before ++ e :: after → isTerminalEvent e.event = true →
    ∃ k ∈ before ++ [e], k ∈ kept ∧ k.event = e.event ∧ k.status = e.status ∧
      k.data.getD sha.null = e.data.getD sha.null
  once : ((terminals kept).map (LaneEvent.payload sha)).Nodup

section Marked

variable {sha : Digest D} {events : List (LaneEvent D)}

variable {kept : List (LaneEvent D)} {e : LaneEvent D}

theorem Marked.terminalFingerprint (h : Marked sha e) (hterminal : isTerminalEvent e.event = true) :
    terminalFingerprint e = some (sha.digest (e.payload sha)) := by
  simp [Lane.terminalFingerprint, hterminal, h hterminal]

theorem terminal_of_fingerprint {fp : String} (h : terminalFingerprint e = some fp) :
    isTerminalEvent e.event = true := by
  by_contra hnot
  simp [terminalFingerprint, hnot] at h

theorem filterMap_terminalFingerprint (h : ∀ e ∈ kept, Marked sha e) :
    kept.filterMap terminalFingerprint =
      ((terminals kept).map (LaneEvent.payload sha)).map sha.digest := by
  induction kept with
  | nil => rfl
  | cons e kept ih =>
    obtain ⟨hfirst, hmore⟩ := forall_mem_cons.mp h
    cases hterminal : isTerminalEvent e.event with
    | false =>
      have hnone : terminalFingerprint e = none := by simp [terminalFingerprint, hterminal]
      simpa [filterMap_cons_none hnone, terminals, hterminal] using ih hmore
    | true =>
      have hsome := hfirst.terminalFingerprint hterminal
      simpa [filterMap_cons_some hsome, terminals, hterminal] using ih hmore

theorem deduplicated (hmarked : ∀ e ∈ events, Marked sha e) (hsha : NoCollision sha events) :
    Deduplicated sha events (dedupeTerminalEvents events) := by
  rw [dedupe_eq]
  have hsublist : (firsts terminalFingerprint [] events).Sublist events := firsts_sublist [] events
  refine ⟨hsublist, ?_, ?_, ?_⟩
  · apply filter_firsts
    intro e hother
    simp [terminalFingerprint, (Bool.not_eq_true' _).mp hother]
  · rintro before e after rfl hterminal
    have he : e ∈ before ++ e :: after := by simp
    have hfp := (hmarked e he).terminalFingerprint hterminal
    obtain ⟨k, hk, hfirst, hkfp⟩ := exists_first hfp before after
    refine ⟨k, hk, hfirst, ?_⟩
    have hkmem := hsublist.subset hfirst
    have hkterminal := terminal_of_fingerprint hkfp
    rw [(hmarked k hkmem).terminalFingerprint hkterminal, Option.some.injEq] at hkfp
    exact payload_eq_iff.mp (hsha k hkmem e he hkfp)
  · have hnodup : ((firsts terminalFingerprint [] events).filterMap _).Nodup := nodup_keys [] events
    rw [filterMap_terminalFingerprint fun e he => hmarked e (hsublist.subset he)] at hnodup
    exact hnodup.of_map _

def outcomePayload [DecidableEq D] (sha : Digest D) (events : List (LaneEvent D)) :
    Option (FingerprintPayload D) :=
  ((reconcileTerminalEvents events).map Prod.fst).map (LaneEvent.payload sha)

theorem uncertain_payload_eq_iff {a b : LaneEvent D} :
    a.uncertain.payload sha = b.uncertain.payload sha ↔
      a.data.getD sha.null = b.data.getD sha.null := by
  simp [payload_eq_iff, LaneEvent.uncertain]

theorem Uncertain.terminal (h : Uncertain events) :
    ∃ t ∈ events, isTerminalEvent t.event = true := by
  induction events with
  | nil => cases h
  | cons e events ih =>
    rcases h with ⟨hterminal, -⟩ | hlater
    · exact ⟨e, mem_cons_self, hterminal⟩
    · obtain ⟨t, ht, hterminal⟩ := ih hlater
      exact ⟨t, mem_cons_of_mem e ht, hterminal⟩

theorem terminals_eq_nil_iff {events : List (LaneEvent D)} :
    terminals (sortBySeq events) = [] ↔ ∀ e ∈ events, isTerminalEvent e.event = false := by
  simp [terminals, mem_sortBySeq]

theorem Deduplicated.terminals_eq_nil_iff (h : Deduplicated sha events kept) :
    terminals (sortBySeq kept) = [] ↔ terminals (sortBySeq events) = [] := by
  rw [Lane.terminals_eq_nil_iff, Lane.terminals_eq_nil_iff]
  constructor
  · intro hnone e he
    by_contra hterminal
    obtain ⟨before, after, hsplit⟩ := append_of_mem he
    obtain ⟨k, -, hk, hevent, -⟩ := h.first before e after hsplit (by simpa using hterminal)
    simp [← hevent, hnone k hk] at hterminal
  · exact fun hnone e he => hnone e (h.sublist.subset he)

theorem not_uncertain_of_nil (h : terminals (sortBySeq events) = []) :
    ¬ Uncertain (sortBySeq events) := by
  intro huncertain
  obtain ⟨t, ht, hterminal⟩ := huncertain.terminal
  simp [Lane.terminals_eq_nil_iff.mp h t (mem_sortBySeq.mp ht)] at hterminal

/-- The last terminal event that is kept has the data of the last one of all, and also its name
and its status if no event of uncertainty comes after a terminal event. One that does so comes
after a terminal event that is kept. -/
structure LastKept (sha : Digest D) (events kept : List (LaneEvent D)) : Prop where
  uncertain : Uncertain (sortBySeq kept) ↔ Uncertain (sortBySeq events)
  last : ∀ k last, (terminals (sortBySeq kept)).getLast? = some k →
    (terminals (sortBySeq events)).getLast? = some last →
      k.data.getD sha.null = last.data.getD sha.null ∧
        (¬ Uncertain (sortBySeq events) → k.event = last.event ∧ k.status = last.status)

theorem lastKept_iff {k last : LaneEvent D} (hk : (terminals (sortBySeq kept)).getLast? = some k)
    (hlast : (terminals (sortBySeq events)).getLast? = some last) :
    LastKept sha events kept ↔ (Uncertain (sortBySeq kept) ↔ Uncertain (sortBySeq events)) ∧
      k.data.getD sha.null = last.data.getD sha.null ∧
        (¬ Uncertain (sortBySeq events) → k.event = last.event ∧ k.status = last.status) := by
  constructor
  · rintro ⟨huncertain, h⟩
    exact ⟨huncertain, h k last hk hlast⟩
  · rintro ⟨huncertain, h⟩
    refine ⟨huncertain, ?_⟩
    intro k' last' hk' hlast'
    obtain rfl := Option.some.inj (hk.symm.trans hk')
    obtain rfl := Option.some.inj (hlast.symm.trans hlast')
    exact h

section Outcome

variable [DecidableEq D]

theorem kept_payload (hproduced : ∀ e ∈ events, Produced sha e) (hsha : NoCollision sha events) :
    ((terminals (sortBySeq events)).foldl keep none).map (LaneEvent.payload sha) =
      (terminals (sortBySeq events)).getLast?.map (LaneEvent.payload sha) := by
  obtain ⟨runs, hcut⟩ := exists_cut (terminals (sortBySeq events))
  rw [hcut.kept, hcut.last]
  cases hrun : runs.getLast? with
  | none => rfl
  | some run => simp [hcut.payload_last hproduced hsha (mem_of_getLast? hrun)]

theorem outcomePayload_certain (hproduced : ∀ e ∈ events, Produced sha e)
    (hsha : NoCollision sha events) (h : ¬ Uncertain (sortBySeq events)) :
    outcomePayload sha events =
      (terminals (sortBySeq events)).getLast?.map (LaneEvent.payload sha) := by
  rw [outcomePayload, reconcile_certain h, kept_payload hproduced hsha]

theorem outcomePayload_uncertain (hproduced : ∀ e ∈ events, Produced sha e)
    (hsha : NoCollision sha events) (h : Uncertain (sortBySeq events)) :
    outcomePayload sha events =
      (terminals (sortBySeq events)).getLast?.map fun e => e.uncertain.payload sha := by
  have hkept := kept_payload hproduced hsha
  rw [outcomePayload, reconcile_uncertain h, Option.map_map]
  cases hlast : (terminals (sortBySeq events)).getLast? with
  | none =>
    rw [hlast, Option.map_none, Option.map_eq_none_iff] at hkept
    simp [hkept]
  | some last =>
    rw [hlast] at hkept
    obtain ⟨k, hk, hpayload⟩ := Option.map_eq_some_iff.mp hkept
    have hdata := (payload_eq_iff.mp hpayload).2.2
    simp [hk, uncertain_payload_eq_iff.mpr hdata]

theorem outcome_kept_iff (hmarked : ∀ e ∈ events, Marked sha e) (hsha : NoCollision sha events)
    (h : Deduplicated sha events kept) :
    outcomePayload sha kept = outcomePayload sha events ↔ LastKept sha events kept := by
  have hproduced : ∀ e ∈ events, Produced sha e := fun e he => (hmarked e he).produced
  have hproducedKept : ∀ e ∈ kept, Produced sha e := fun e he => hproduced e (h.sublist.subset he)
  have hshaKept : NoCollision sha kept := fun a ha b hb =>
    hsha a (h.sublist.subset ha) b (h.sublist.subset hb)
  cases hlast : (terminals (sortBySeq events)).getLast? with
  | none =>
    have hnil := getLast?_eq_none_iff.mp hlast
    have hkeptNil := h.terminals_eq_nil_iff.mpr hnil
    have hcertain := not_uncertain_of_nil hnil
    have hkeptCertain := not_uncertain_of_nil hkeptNil
    rw [outcomePayload_certain hproduced hsha hcertain,
      outcomePayload_certain hproducedKept hshaKept hkeptCertain, hnil, hkeptNil]
    simp only [true_iff]
    exact ⟨iff_of_false hkeptCertain hcertain, by simp [hkeptNil]⟩
  | some last =>
    have hne : terminals (sortBySeq kept) ≠ [] := by
      intro hkeptNil
      simp [h.terminals_eq_nil_iff.mp hkeptNil] at hlast
    obtain ⟨k, hk⟩ := Option.isSome_iff_exists.mp (getLast?_isSome.mpr hne)
    have hterminal : isTerminalEvent last.event = true :=
      (mem_terminals.mp (mem_of_getLast? hlast)).2
    have hkterminal : isTerminalEvent k.event = true :=
      (mem_terminals.mp (mem_of_getLast? hk)).2
    rw [lastKept_iff hk hlast]
    by_cases hflag : Uncertain (sortBySeq events)
    · rw [outcomePayload_uncertain hproduced hsha hflag, hlast]
      by_cases hkeptFlag : Uncertain (sortBySeq kept)
      · rw [outcomePayload_uncertain hproducedKept hshaKept hkeptFlag, hk]
        simp [hflag, hkeptFlag, uncertain_payload_eq_iff]
      · -- Only the outcome of all events is rewritten, and a terminal event is none.
        rw [outcomePayload_certain hproducedKept hshaKept hkeptFlag, hk]
        have hevent := ne_reconciled hkterminal
        simp [hflag, hkeptFlag, payload_eq_iff, LaneEvent.uncertain, hevent]
    · rw [outcomePayload_certain hproduced hsha hflag, hlast]
      by_cases hkeptFlag : Uncertain (sortBySeq kept)
      · rw [outcomePayload_uncertain hproducedKept hshaKept hkeptFlag, hk]
        have hevent := ne_reconciled hterminal
        simp [hflag, hkeptFlag, payload_eq_iff, LaneEvent.uncertain, hevent.symm]
      · rw [outcomePayload_certain hproducedKept hshaKept hkeptFlag, hk]
        simp only [Option.map_some, Option.some.injEq, payload_eq_iff, hflag, hkeptFlag,
          not_false_eq_true, true_imp_iff, iff_self, true_and]
        exact ⟨fun ⟨he, hs, hd⟩ => ⟨hd, he, hs⟩, fun ⟨hd, he, hs⟩ => ⟨he, hs, hd⟩⟩

theorem dedupe_keeps_outcomes (hmarked : ∀ e ∈ events, Marked sha e)
    (hsha : NoCollision sha events) :
    Deduplicated sha events (dedupeTerminalEvents events) ∧
      (outcomePayload sha (dedupeTerminalEvents events) = outcomePayload sha events ↔
        LastKept sha events (dedupeTerminalEvents events)) := by
  have hkept := deduplicated hmarked hsha
  exact ⟨hkept, outcome_kept_iff hmarked hsha hkept⟩

def completedTwice : List (LaneEvent String) :=
  [finishedOnce 1, failedOnce 2 .compile, finishedOnce 3]

theorem completedTwice_marked : ∀ e ∈ completedTwice, Marked plainDigest e := by
  simp [completedTwice, finishedOnce, failedOnce, marked_buildTerminal]

theorem dedupe_keeps_outcomes_completed_twice :
    Deduplicated plainDigest completedTwice (dedupeTerminalEvents completedTwice) ∧
      (outcomePayload plainDigest (dedupeTerminalEvents completedTwice) =
          outcomePayload plainDigest completedTwice ↔
        LastKept plainDigest completedTwice (dedupeTerminalEvents completedTwice)) :=
  dedupe_keeps_outcomes completedTwice_marked (by unfold NoCollision; decide)

theorem completed_twice_outcome :
    outcomePayload plainDigest completedTwice = some ⟨.finished, .completed, "null"⟩ := by
  have hsorted : sortBySeq completedTwice = completedTwice := sortBySeq_of_sorted (by decide)
  simp only [outcomePayload, reconcileTerminalEvents, hsorted]
  rfl

theorem completed_once_outcome :
    outcomePayload plainDigest (dedupeTerminalEvents completedTwice) =
      some ⟨.failed, .failed, "null"⟩ := by
  have hkept : dedupeTerminalEvents completedTwice =
      [finishedOnce 1, failedOnce 2 .compile] := by decide
  have hsorted : sortBySeq [finishedOnce 1, failedOnce 2 .compile] =
      [finishedOnce 1, failedOnce 2 .compile] := sortBySeq_of_sorted (by decide)
  simp only [outcomePayload, hkept, reconcileTerminalEvents, hsorted]
  rfl

theorem dedupe_loses_outcomes :
    ((∀ e ∈ completedTwice, Marked plainDigest e) ∧ NoCollision plainDigest completedTwice ∧
      outcomePayload plainDigest (dedupeTerminalEvents completedTwice) ≠
        outcomePayload plainDigest completedTwice) ∧
    ((∀ e ∈ failedTwice, Marked plainDigest e) ∧ NoCollision plainDigest failedTwice ∧
      ¬ ∀ e ∈ failedTwice, ∃ k ∈ dedupeTerminalEvents failedTwice,
        eventsMateriallyDiffer k e = false) := by
  constructor
  · refine ⟨completedTwice_marked, by unfold NoCollision; decide, ?_⟩
    simp [completed_once_outcome, completed_twice_outcome]
  · refine ⟨?_, by unfold NoCollision; decide, by decide⟩
    simp [failedTwice, failedOnce, marked_buildTerminal]

end Outcome

end Marked

end DbClinic.Runtime.Lane
