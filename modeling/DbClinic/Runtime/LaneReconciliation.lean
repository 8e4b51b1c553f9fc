import DbClinic.Lib.SortBy
import DbClinic.Runtime.LaneEvents

/-!
The reconciliation of a burst of lane events: the events in the order of their sequence
numbers, the terminal event that is kept, and the uncertainty that stays once it is noted.
-/

namespace DbClinic.Runtime.Lane

open List

variable {D : Type}

inductive EventTerminality where
  | terminal
  | advisory
  | uncertainty
  deriving DecidableEq

def classifyEventTerminality (event : LaneEventName) : EventTerminality :=
  match event with
  | .finished | .failed | .merged | .superseded | .closed => .terminal
  | .reconciled => .uncertainty
  | _ => .advisory

/-- `sort_by_key`, which is stable. -/
def sortBySeq (events : List (LaneEvent D)) : List (LaneEvent D) :=
  events.mergeSort fun a b => decide (a.metadata.seq ≤ b.metadata.seq)

def LaneEvent.uncertain (t : LaneEvent D) : LaneEvent D :=
  { t with
    event := .reconciled
    status := .reconciled
    detail := some "Session terminal state uncertain: transport died after terminal event" }

theorem ne_reconciled {event : LaneEventName} (h : isTerminalEvent event = true) :
    event ≠ .reconciled := by
  rintro rfl
  cases h

theorem sortBySeq_perm (events : List (LaneEvent D)) : (sortBySeq events).Perm events :=
  mergeSort_perm _ _

variable {events : List (LaneEvent D)}

variable {e : LaneEvent D}

theorem mem_sortBySeq :
    e ∈ sortBySeq events ↔ e ∈ events :=
  (sortBySeq_perm events).mem_iff

theorem sortBySeq_sorted (events : List (LaneEvent D)) :
    (sortBySeq events).Pairwise fun a b => a.metadata.seq ≤ b.metadata.seq :=
  SortDedup.sorted_mergeSort events

theorem sortBySeq_of_sorted (h : events.Pairwise fun a b => a.metadata.seq ≤ b.metadata.seq) :
    sortBySeq events = events :=
  SortDedup.mergeSort_eq_self h

/-- Events with pairwise distinct sequence numbers. -/
def DistinctSeqs (events : List (LaneEvent D)) : Prop :=
  (events.map fun e => e.metadata.seq).Nodup

instance (events : List (LaneEvent D)) : Decidable (DistinctSeqs events) :=
  inferInstanceAs (Decidable (List.Nodup _))

theorem sortBySeq_strict (h : DistinctSeqs events) :
    (sortBySeq events).Pairwise fun a b => a.metadata.seq < b.metadata.seq := by
  have hnodup : ((sortBySeq events).map fun e => e.metadata.seq).Nodup :=
    ((sortBySeq_perm events).map _).nodup_iff.mpr h
  have hne := pairwise_map.mp hnodup
  apply ((sortBySeq_sorted events).and hne).imp
  rintro a b ⟨hle, hne⟩
  omega

theorem sortBySeq_eq_of_perm {other : List (LaneEvent D)} (h : DistinctSeqs events)
    (hperm : other.Perm events) : sortBySeq other = sortBySeq events :=
  (SortDedup.mergeSort_eq_of_perm hperm.symm h).symm

def terminals (events : List (LaneEvent D)) : List (LaneEvent D) :=
  events.filter fun e => isTerminalEvent e.event

structure LastTerminal (events : List (LaneEvent D)) (last : LaneEvent D) : Prop where
  mem : last ∈ events
  terminal : isTerminalEvent last.event = true
  highest : ∀ t ∈ events, isTerminalEvent t.event = true → t.metadata.seq ≤ last.metadata.seq

theorem mem_terminals {t : LaneEvent D} :
    t ∈ terminals (sortBySeq events) ↔ t ∈ events ∧ isTerminalEvent t.event = true := by
  rw [terminals, mem_filter, mem_sortBySeq]

theorem lastTerminal_iff (h : DistinctSeqs events) {last : LaneEvent D} :
    LastTerminal events last ↔ (terminals (sortBySeq events)).getLast? = some last := by
  have hsorted := (sortBySeq_strict h).filter fun e => isTerminalEvent e.event
  rw [getLast?_eq_some_iff]
  constructor
  · rintro ⟨hmem, hterminal, hhighest⟩
    obtain ⟨before, after, hsplit⟩ := append_of_mem (mem_terminals.mpr ⟨hmem, hterminal⟩)
    cases after with
    | nil => exact ⟨before, hsplit⟩
    | cons t after =>
      exfalso
      have ht : t ∈ terminals (sortBySeq events) := by simp [hsplit]
      obtain ⟨htmem, htterminal⟩ := mem_terminals.mp ht
      have hle := hhighest t htmem htterminal
      rw [terminals] at hsplit
      rw [hsplit, pairwise_append] at hsorted
      have hlt := (pairwise_cons.mp hsorted.2.1).1 t mem_cons_self
      omega
  · rintro ⟨before, hsplit⟩
    have hlast : last ∈ terminals (sortBySeq events) := by simp [hsplit]
    obtain ⟨hmem, hterminal⟩ := mem_terminals.mp hlast
    refine ⟨hmem, hterminal, ?_⟩
    intro t ht htterminal
    have htmem := mem_terminals.mpr ⟨ht, htterminal⟩
    rw [terminals] at hsplit
    rw [hsplit, pairwise_append] at hsorted
    rw [terminals, hsplit] at htmem
    rcases mem_append.mp htmem with hearlier | hsame
    · exact Nat.le_of_lt (hsorted.2.2 t hearlier last (by simp))
    · simp [mem_singleton.mp hsame]

def Uncertain : List (LaneEvent D) → Prop
  | [] => False
  | e :: events =>
    isTerminalEvent e.event = true ∧ (∃ r ∈ events, r.event = .reconciled) ∨ Uncertain events

theorem Uncertain.reconciled (h : Uncertain events) :
    ∃ r ∈ events, r.event = .reconciled := by
  induction events with
  | nil => cases h
  | cons e events ih =>
    rcases h with ⟨-, r, hr, hreconciled⟩ | hlater
    · exact ⟨r, mem_cons_of_mem e hr, hreconciled⟩
    · obtain ⟨r, hr, hreconciled⟩ := ih hlater
      exact ⟨r, mem_cons_of_mem e hr, hreconciled⟩

theorem uncertain_cons_terminal (h : isTerminalEvent e.event = true) :
    Uncertain (e :: events) ↔ ∃ r ∈ events, r.event = .reconciled := by
  have hlater : Uncertain events → ∃ r ∈ events, r.event = .reconciled := Uncertain.reconciled
  simp only [Uncertain, h, true_and]
  exact ⟨fun hor => hor.elim id hlater, .inl⟩

/-- An event of uncertainty comes after the event. -/
def Doubted (events : List (LaneEvent D)) (e : LaneEvent D) : Prop :=
  ∃ r ∈ events, r.event = .reconciled ∧ e.metadata.seq < r.metadata.seq

instance (events : List (LaneEvent D)) (e : LaneEvent D) : Decidable (Doubted events e) :=
  inferInstanceAs (Decidable (∃ r ∈ events, _))

theorem uncertain_iff (hsorted : events.Pairwise fun a b => a.metadata.seq < b.metadata.seq) :
    Uncertain events ↔ ∃ t ∈ events, isTerminalEvent t.event = true ∧ Doubted events t := by
  unfold Doubted
  induction events with
  | nil => simp [Uncertain]
  | cons e events ih =>
    obtain ⟨hfirst, hmore⟩ := pairwise_cons.mp hsorted
    simp only [Uncertain, ih hmore]
    constructor
    · rintro (⟨hterminal, r, hr, hreconciled⟩ | ⟨t, ht, hterminal, r, hr, hboth⟩)
      · exact ⟨e, mem_cons_self, hterminal, r, mem_cons_of_mem e hr, hreconciled,
          hfirst r hr⟩
      · exact ⟨t, mem_cons_of_mem e ht, hterminal, r, mem_cons_of_mem e hr, hboth⟩
    · rintro ⟨t, ht, hterminal, r, hr, hreconciled, hlt⟩
      rcases mem_cons.mp hr with rfl | hlater
      · -- Nothing comes before the first event.
        rcases mem_cons.mp ht with rfl | ht
        · omega
        · have hbehind := hfirst t ht
          omega
      · rcases mem_cons.mp ht with rfl | ht
        · exact .inl ⟨hterminal, r, hlater, hreconciled⟩
        · exact .inr ⟨t, ht, hterminal, r, hlater, hreconciled, hlt⟩

theorem uncertain_sortBySeq (h : DistinctSeqs events) :
    Uncertain (sortBySeq events) ↔
      ∃ t ∈ events, isTerminalEvent t.event = true ∧ Doubted events t := by
  simp only [uncertain_iff (sortBySeq_strict h), Doubted, mem_sortBySeq]

section Loop

variable [DecidableEq D]

def eventsMateriallyDiffer (a b : LaneEvent D) : Bool :=
  if a.event ≠ b.event then true
  else if a.status ≠ b.status then true
  else if a.failureClass ≠ b.failureClass then true
  else if a.data ≠ b.data then true
  else false

def sameFingerprint (a b : LaneEvent D) : Bool :=
  match a.metadata.eventFingerprint, b.metadata.eventFingerprint with
  | some fp1, some fp2 => fp1 = fp2
  | _, _ => false

/-- The variables of the loop. -/
structure Reconciling (D : Type) where
  lastTerminal : Option (LaneEvent D)
  postTerminalUncertainty : Bool
  reconciledEvents : List (LaneEvent D)

def reconcileEvent (s : Reconciling D) (event : LaneEvent D) : Reconciling D :=
  match classifyEventTerminality event.event with
  | .terminal =>
    match s.lastTerminal with
    | some terminal =>
      if sameFingerprint event terminal then s
      else if eventsMateriallyDiffer terminal event then { s with lastTerminal := some event }
      else s
    | none => { s with lastTerminal := some event }
  | .uncertainty =>
    { s with
      postTerminalUncertainty := s.postTerminalUncertainty || s.lastTerminal.isSome
      reconciledEvents := s.reconciledEvents ++ [event] }
  | .advisory => { s with reconciledEvents := s.reconciledEvents ++ [event] }

def reconcileTerminalEvents (events : List (LaneEvent D)) :
    Option (LaneEvent D × List (LaneEvent D)) :=
  if events.isEmpty then none
  else
    let s := (sortBySeq events).foldl reconcileEvent ⟨none, false, []⟩
    let finalTerminal :=
      if s.postTerminalUncertainty then s.lastTerminal.map LaneEvent.uncertain else s.lastTerminal
    finalTerminal.map fun t => (t, s.reconciledEvents)

def Absorbs (kept e : LaneEvent D) : Bool :=
  sameFingerprint e kept || !eventsMateriallyDiffer kept e

def keep (kept : Option (LaneEvent D)) (e : LaneEvent D) : Option (LaneEvent D) :=
  match kept with
  | some terminal => if Absorbs terminal e then some terminal else some e
  | none => some e

theorem terminality_eq (event : LaneEventName) :
    classifyEventTerminality event =
      if isTerminalEvent event then .terminal
      else if event = .reconciled then .uncertainty else .advisory := by
  cases event <;> rfl

theorem reconcileEvent_terminal (h : isTerminalEvent e.event = true) (s : Reconciling D) :
    reconcileEvent s e = { s with lastTerminal := keep s.lastTerminal e } := by
  obtain ⟨lastTerminal, uncertainty, reconciled⟩ := s
  simp only [reconcileEvent, terminality_eq, h, if_true]
  cases lastTerminal with
  | none => rfl
  | some terminal =>
    cases hsame : sameFingerprint e terminal with
    | true => simp [keep, Absorbs, hsame]
    | false =>
      cases hdiffer : eventsMateriallyDiffer terminal e with
      | true => simp [keep, Absorbs, hsame, hdiffer]
      | false => simp [keep, Absorbs, hsame, hdiffer]

theorem reconcileEvent_other (h : isTerminalEvent e.event = false) (s : Reconciling D) :
    (reconcileEvent s e).lastTerminal = s.lastTerminal ∧
      (reconcileEvent s e).postTerminalUncertainty =
        (s.postTerminalUncertainty || s.lastTerminal.isSome && e.event = .reconciled) := by
  by_cases hreconciled : e.event = .reconciled
  · simp [reconcileEvent, terminality_eq, hreconciled, isTerminalEvent]
  · simp [reconcileEvent, terminality_eq, h, hreconciled]

theorem foldl_lastTerminal (events : List (LaneEvent D)) (s : Reconciling D) :
    (events.foldl reconcileEvent s).lastTerminal = (terminals events).foldl keep s.lastTerminal := by
  induction events generalizing s with
  | nil => rfl
  | cons e events ih =>
    rw [foldl_cons, ih]
    cases h : isTerminalEvent e.event with
    | true => simp [terminals, h, reconcileEvent_terminal h]
    | false => simp [terminals, h, (reconcileEvent_other h s).1]

theorem keep_isSome (kept : Option (LaneEvent D)) (e : LaneEvent D) :
    (keep kept e).isSome = true := by
  unfold keep
  split
  · split <;> rfl
  · rfl

theorem foldl_uncertainty_of_kept (events : List (LaneEvent D)) (s : Reconciling D)
    (hkept : s.lastTerminal.isSome = true) :
    (events.foldl reconcileEvent s).postTerminalUncertainty = true ↔
      s.postTerminalUncertainty = true ∨ ∃ r ∈ events, r.event = .reconciled := by
  induction events generalizing s with
  | nil => simp
  | cons e events ih =>
    rw [foldl_cons]
    cases h : isTerminalEvent e.event with
    | true =>
      rw [reconcileEvent_terminal h, ih _ (keep_isSome _ _)]
      simp [ne_reconciled h]
    | false =>
      obtain ⟨hlast, huncertain⟩ := reconcileEvent_other h s
      rw [ih _ (by rw [hlast, hkept]), huncertain, hkept]
      simp [or_assoc]

theorem foldl_uncertainty (events : List (LaneEvent D)) (s : Reconciling D)
    (hkept : s.lastTerminal = none) (hcertain : s.postTerminalUncertainty = false) :
    (events.foldl reconcileEvent s).postTerminalUncertainty = true ↔ Uncertain events := by
  induction events generalizing s with
  | nil => simp [hcertain, Uncertain]
  | cons e events ih =>
    rw [foldl_cons]
    cases h : isTerminalEvent e.event with
    | true =>
      rw [reconcileEvent_terminal h,
        foldl_uncertainty_of_kept events _ (keep_isSome _ _)]
      simp [hcertain, uncertain_cons_terminal h]
    | false =>
      obtain ⟨hlast, huncertain⟩ := reconcileEvent_other h s
      rw [ih _ (by rw [hlast, hkept]) (by rw [huncertain, hcertain, hkept]; rfl)]
      simp [Uncertain, h]

/-- A cut of terminal events into runs: the first event of a run stands for the others,
and not for the first of the next. -/
structure Cut (events : List (LaneEvent D)) (runs : List (LaneEvent D × List (LaneEvent D))) :
    Prop where
  joined : events = runs.flatMap fun run => run.1 :: run.2
  absorbed : ∀ run ∈ runs, ∀ e ∈ run.2, Absorbs run.1 e = true
  apart : runs.IsChain fun run next => Absorbs run.1 next.1 = false

theorem exists_cut_from (first : LaneEvent D) (events : List (LaneEvent D)) :
    ∃ rest runs, Cut (first :: events) ((first, rest) :: runs) := by
  induction events generalizing first with
  | nil => exact ⟨[], [], by simp, by simp, by simp⟩
  | cons e events ih =>
    cases habsorbs : Absorbs first e with
    | true =>
      obtain ⟨rest, runs, hcut⟩ := ih first
      obtain ⟨hfirst, hmore⟩ := forall_mem_cons.mp hcut.absorbed
      have hjoined := hcut.joined
      simp only [flatMap_cons, cons_append, List.cons.injEq, true_and] at hjoined
      refine ⟨e :: rest, runs, by simp [hjoined], ?_, ?_⟩
      · rw [forall_mem_cons]
        refine ⟨?_, hmore⟩
        simpa [habsorbs] using hfirst
      · cases runs with
        | nil => simp
        | cons next runs =>
          exact isChain_cons_cons.mpr (isChain_cons_cons.mp hcut.apart)
    | false =>
      obtain ⟨rest, runs, hcut⟩ := ih e
      refine ⟨[], (e, rest) :: runs, ?_, ?_, ?_⟩
      · simp [hcut.joined]
      · rw [forall_mem_cons]
        exact ⟨by simp, hcut.absorbed⟩
      · exact isChain_cons_cons.mpr ⟨habsorbs, hcut.apart⟩

theorem exists_cut (events : List (LaneEvent D)) : ∃ runs, Cut events runs := by
  cases events with
  | nil => exact ⟨[], by simp, by simp, by simp⟩
  | cons first events =>
    obtain ⟨rest, runs, hcut⟩ := exists_cut_from first events
    exact ⟨_, hcut⟩

theorem foldl_keep_absorbed {first : LaneEvent D} {rest : List (LaneEvent D)}
    (h : ∀ e ∈ rest, Absorbs first e = true) : rest.foldl keep (some first) = some first := by
  induction rest with
  | nil => rfl
  | cons e rest ih =>
    obtain ⟨hfirst, hmore⟩ := forall_mem_cons.mp h
    simp [keep, hfirst, ih hmore]

theorem foldl_keep_runs (run : LaneEvent D × List (LaneEvent D))
    (runs : List (LaneEvent D × List (LaneEvent D)))
    (habsorbed : ∀ run ∈ runs, ∀ e ∈ run.2, Absorbs run.1 e = true)
    (hapart : (run :: runs).IsChain fun run next => Absorbs run.1 next.1 = false) :
    (runs.flatMap fun run => run.1 :: run.2).foldl keep (some run.1) =
      some ((runs.getLast?.getD run).1) := by
  induction runs generalizing run with
  | nil => rfl
  | cons next runs ih =>
    obtain ⟨hfirst, hmore⟩ := forall_mem_cons.mp habsorbed
    obtain ⟨hnot, hchain⟩ := isChain_cons_cons.mp hapart
    have hkeep : keep (some run.1) next.1 = some next.1 := by simp [keep, hnot]
    rw [flatMap_cons, foldl_append, foldl_cons, hkeep,
      foldl_keep_absorbed hfirst, ih next hmore hchain, getLast?_cons]
    rfl

variable {runs : List (LaneEvent D × List (LaneEvent D))}

theorem Cut.kept (h : Cut events runs) :
    events.foldl keep none = runs.getLast?.map Prod.fst := by
  cases runs with
  | nil => simp [h.joined]
  | cons run runs =>
    obtain ⟨hfirst, hmore⟩ := forall_mem_cons.mp h.absorbed
    have hstart : keep none run.1 = some run.1 := rfl
    rw [h.joined, flatMap_cons, foldl_append, foldl_cons, hstart,
      foldl_keep_absorbed hfirst, foldl_keep_runs run runs hmore h.apart, getLast?_cons]
    rfl

theorem Cut.last (h : Cut events runs) :
    events.getLast? = runs.getLast?.map fun run => run.2.getLast?.getD run.1 := by
  obtain ⟨hjoined, -, -⟩ := h
  subst hjoined
  induction runs with
  | nil => rfl
  | cons run runs ih =>
    rw [flatMap_cons, getLast?_append, ih, getLast?_cons, getLast?_cons]
    cases runs.getLast? with
    | none => rfl
    | some last => rfl

theorem reconcile_eq (events : List (LaneEvent D)) :
    (reconcileTerminalEvents events).map Prod.fst =
      if ((sortBySeq events).foldl reconcileEvent ⟨none, false, []⟩).postTerminalUncertainty then
        ((terminals (sortBySeq events)).foldl keep none).map LaneEvent.uncertain
      else (terminals (sortBySeq events)).foldl keep none := by
  have hkept := foldl_lastTerminal (sortBySeq events) ⟨none, false, []⟩
  cases hempty : events with
  | nil => simp [reconcileTerminalEvents, sortBySeq, terminals]
  | cons e rest =>
    rw [← hempty]
    have hnonempty : events.isEmpty = false := by simp [hempty]
    simp only [reconcileTerminalEvents, hnonempty, hkept, Bool.false_eq_true, if_false,
      Option.map_map]
    exact Option.map_id'

theorem reconcile_certain (h : ¬ Uncertain (sortBySeq events)) :
    (reconcileTerminalEvents events).map Prod.fst =
      (terminals (sortBySeq events)).foldl keep none := by
  rw [reconcile_eq, if_neg]
  exact mt (foldl_uncertainty _ ⟨none, false, []⟩ rfl rfl).mp h

theorem reconcile_uncertain (h : Uncertain (sortBySeq events)) :
    (reconcileTerminalEvents events).map Prod.fst =
      ((terminals (sortBySeq events)).foldl keep none).map LaneEvent.uncertain := by
  rw [reconcile_eq, if_pos]
  exact (foldl_uncertainty _ ⟨none, false, []⟩ rfl rfl).mpr h

theorem differ_eq_false_iff {a b : LaneEvent D} :
    eventsMateriallyDiffer a b = false ↔
      a.event = b.event ∧ a.status = b.status ∧ a.failureClass = b.failureClass ∧
        a.data = b.data := by
  unfold eventsMateriallyDiffer
  split_ifs <;> simp_all

/-- The reconciliation answers with the last terminal event, rewritten exactly if an event of
uncertainty comes after it, whatever the order of arrival. -/
structure Reconciles (events : List (LaneEvent D)) : Prop where
  some_iff : (reconcileTerminalEvents events).isSome = true ↔
    ∃ e ∈ events, isTerminalEvent e.event = true
  outcome : ∀ last, LastTerminal events last → ∃ t, eventsMateriallyDiffer t last = false ∧
    (Doubted events last →
      (reconcileTerminalEvents events).map Prod.fst = some t.uncertain) ∧
    (¬ Doubted events last → (reconcileTerminalEvents events).map Prod.fst = some t)
  order : ∀ other, other.Perm events →
    reconcileTerminalEvents other = reconcileTerminalEvents events

/-- The last run of terminal events ends in an event that its first one equals materially,
and uncertainty that comes after a terminal event comes after the last one. -/
structure Settled (events : List (LaneEvent D)) : Prop where
  represented : ∃ runs, Cut (terminals (sortBySeq events)) runs ∧
    ∀ run, runs.getLast? = some run →
      eventsMateriallyDiffer run.1 (run.2.getLast?.getD run.1) = false
  doubted : ∀ t ∈ events, isTerminalEvent t.event = true → Doubted events t →
    ∀ last, LastTerminal events last → Doubted events last

section Outcome

variable {sha : Digest D} {events : List (LaneEvent D)}

variable {runs : List (LaneEvent D × List (LaneEvent D))} {last : LaneEvent D}

theorem Cut.exists_last (h : Cut events runs) (hlast : events.getLast? = some last) :
    ∃ run, runs.getLast? = some run ∧ run.2.getLast?.getD run.1 = last := by
  rw [h.last] at hlast
  exact Option.map_eq_some_iff.mp hlast

theorem Absorbs.payload_eq {kept : LaneEvent D} (h : Absorbs kept e = true)
    (hkept : Produced sha kept) (he : Produced sha e)
    (hterminal : isTerminalEvent kept.event = true) (heterminal : isTerminalEvent e.event = true)
    (hsha : sha.digest (e.payload sha) = sha.digest (kept.payload sha) →
      e.payload sha = kept.payload sha) :
    kept.payload sha = e.payload sha := by
  rcases Bool.or_eq_true_iff.mp h with hsame | hdiffer
  · rcases hkept hterminal with hnone | hsome
    · simp [sameFingerprint, hnone] at hsame
    · rcases he heterminal with henone | hesome
      · simp [sameFingerprint, henone] at hsame
      · have hdigest : sha.digest (e.payload sha) = sha.digest (kept.payload sha) := by
          simpa [sameFingerprint, hsome, hesome] using hsame
        exact (hsha hdigest).symm
  · obtain ⟨hevent, hstatus, -, hdata⟩ := differ_eq_false_iff.mp (by simpa using hdiffer)
    simp [payload_eq_iff, hevent, hstatus, hdata]

variable {run : LaneEvent D × List (LaneEvent D)}

theorem Cut.payload_last (h : Cut (terminals (sortBySeq events)) runs)
    (hproduced : ∀ e ∈ events, Produced sha e) (hsha : NoCollision sha events) (hrun : run ∈ runs) :
    run.1.payload sha = (run.2.getLast?.getD run.1).payload sha := by
  cases hlast : run.2.getLast? with
  | none => rfl
  | some last =>
    have hmem := mem_of_getLast? hlast
    have hfirstmem : run.1 ∈ terminals (sortBySeq events) := by
      rw [h.joined, mem_flatMap]
      exact ⟨run, hrun, mem_cons_self⟩
    have hlastmem : last ∈ terminals (sortBySeq events) := by
      rw [h.joined, mem_flatMap]
      exact ⟨run, hrun, mem_cons_of_mem _ hmem⟩
    obtain ⟨hfirst, hterminal⟩ := mem_terminals.mp hfirstmem
    obtain ⟨hlater, hlterminal⟩ := mem_terminals.mp hlastmem
    exact Absorbs.payload_eq (h.absorbed run hrun last hmem) (hproduced _ hfirst)
      (hproduced _ hlater) hterminal hlterminal (hsha _ hlater _ hfirst)

theorem reconcile_isSome (events : List (LaneEvent D)) :
    (reconcileTerminalEvents events).isSome = true ↔
      ∃ e ∈ events, isTerminalEvent e.event = true := by
  obtain ⟨runs, hcut⟩ := exists_cut (terminals (sortBySeq events))
  have houtcome : (reconcileTerminalEvents events).isSome = runs.getLast?.isSome := by
    have hmap : (reconcileTerminalEvents events).isSome =
        ((reconcileTerminalEvents events).map Prod.fst).isSome := Option.isSome_map.symm
    rw [hmap, reconcile_eq, hcut.kept]
    split <;> simp
  have hlast := congrArg Option.isSome hcut.last
  rw [Option.isSome_map] at hlast
  rw [houtcome, ← hlast, getLast?_isSome]
  constructor
  · intro hne
    obtain ⟨e, he⟩ := exists_mem_of_ne_nil _ hne
    exact ⟨e, mem_terminals.mp he⟩
  · rintro ⟨e, he, hterminal⟩
    exact ne_nil_of_mem (mem_terminals.mpr ⟨he, hterminal⟩)

theorem reconcile_perm (h : DistinctSeqs events) {other : List (LaneEvent D)}
    (hperm : other.Perm events) :
    reconcileTerminalEvents other = reconcileTerminalEvents events := by
  have hempty : other.isEmpty = events.isEmpty := by
    rw [Bool.eq_iff_iff, List.isEmpty_iff, List.isEmpty_iff]
    exact ⟨fun h => by simpa [h] using hperm, fun h => by simpa [h] using hperm⟩
  simp only [reconcileTerminalEvents, hempty, sortBySeq_eq_of_perm h hperm]

theorem exists_kept (h : DistinctSeqs events) (hlast : LastTerminal events last)
    (hcut : Cut (terminals (sortBySeq events)) runs) :
    ∃ run, runs.getLast? = some run ∧ run.2.getLast?.getD run.1 = last ∧
      (terminals (sortBySeq events)).foldl keep none = some run.1 := by
  obtain ⟨run, hrun, hsame⟩ := hcut.exists_last ((lastTerminal_iff h).mp hlast)
  exact ⟨run, hrun, hsame, by simp [hcut.kept, hrun]⟩

theorem Reconciles.doubted (h : Reconciles events) (hdistinct : DistinctSeqs events)
    (hflag : Uncertain (sortBySeq events)) (hlast : LastTerminal events last) :
    Doubted events last := by
  by_contra hnot
  obtain ⟨t, hdiffer, -, hcertain⟩ := h.outcome last hlast
  obtain ⟨hevent, -, -, -⟩ := differ_eq_false_iff.mp hdiffer
  obtain ⟨runs, hcut⟩ := exists_cut (terminals (sortBySeq events))
  obtain ⟨run, -, -, hkept⟩ := exists_kept hdistinct hlast hcut
  have houtcome := hcertain hnot
  rw [reconcile_uncertain hflag, hkept, Option.map_some, Option.some.injEq] at houtcome
  apply ne_reconciled hlast.terminal
  rw [← hevent, ← houtcome]
  rfl

theorem Reconciles.represented (h : Reconciles events) (hdistinct : DistinctSeqs events)
    (hproduced : ∀ e ∈ events, Produced sha e) (hsha : NoCollision sha events)
    (hcut : Cut (terminals (sortBySeq events)) runs) (hrun : runs.getLast? = some run) :
    eventsMateriallyDiffer run.1 (run.2.getLast?.getD run.1) = false := by
  have hlast : LastTerminal events (run.2.getLast?.getD run.1) := by
    rw [lastTerminal_iff hdistinct, hcut.last, hrun]
    rfl
  obtain ⟨run', hrun', -, hkept⟩ := exists_kept hdistinct hlast hcut
  obtain rfl : run = run' := by simpa [hrun] using hrun'
  obtain ⟨t, hdiffer, hdoubted, hcertain⟩ := h.outcome _ hlast
  by_cases hflag : Uncertain (sortBySeq events)
  · have houtcome := hdoubted (h.doubted hdistinct hflag hlast)
    rw [reconcile_uncertain hflag, hkept, Option.map_some, Option.some.injEq] at houtcome
    have hfields := LaneEvent.mk.inj houtcome
    have hpayload := hcut.payload_last hproduced hsha (mem_of_getLast? hrun)
    obtain ⟨hevent, hstatus, -⟩ := payload_eq_iff.mp hpayload
    obtain ⟨-, -, hclass, hdata⟩ := differ_eq_false_iff.mp hdiffer
    apply differ_eq_false_iff.mpr
    refine ⟨hevent, hstatus, ?_, ?_⟩
    · rw [← hclass]
      exact hfields.2.2.2.1
    · rw [← hdata]
      exact hfields.2.2.2.2.2.1
  · have hnot : ¬ Doubted events (run.2.getLast?.getD run.1) := fun hbehind =>
      hflag ((uncertain_sortBySeq hdistinct).mpr ⟨_, hlast.mem, hlast.terminal, hbehind⟩)
    have houtcome := hcertain hnot
    rw [reconcile_certain hflag, hkept, Option.some.injEq] at houtcome
    simpa [← houtcome] using hdiffer

theorem settled_of_reconciles (hdistinct : DistinctSeqs events)
    (hproduced : ∀ e ∈ events, Produced sha e) (hsha : NoCollision sha events)
    (h : Reconciles events) : Settled events := by
  obtain ⟨runs, hcut⟩ := exists_cut (terminals (sortBySeq events))
  refine ⟨⟨runs, hcut, fun run => h.represented hdistinct hproduced hsha hcut⟩, ?_⟩
  intro t ht hterminal hbehind last hlast
  have hflag := (uncertain_sortBySeq hdistinct).mpr ⟨t, ht, hterminal, hbehind⟩
  exact h.doubted hdistinct hflag hlast

theorem reconciles_of_settled (hdistinct : DistinctSeqs events) (h : Settled events) :
    Reconciles events := by
  refine ⟨reconcile_isSome events, ?_, fun other => reconcile_perm hdistinct⟩
  intro last hlast
  have huncertain := uncertain_sortBySeq hdistinct
  obtain ⟨runs, hcut, hrepresented⟩ := h.represented
  obtain ⟨run, hrun, hsame, hkept⟩ := exists_kept hdistinct hlast hcut
  have hdiffer := hrepresented run hrun
  rw [hsame] at hdiffer
  refine ⟨run.1, hdiffer, ?_, ?_⟩
  · intro hbehind
    have hflag := huncertain.mpr ⟨last, hlast.mem, hlast.terminal, hbehind⟩
    rw [reconcile_uncertain hflag, hkept]
    rfl
  · intro hnot
    have hflag : ¬ Uncertain (sortBySeq events) := by
      intro hflag
      obtain ⟨t, ht, hterminal, hbehind⟩ := huncertain.mp hflag
      exact hnot (h.doubted t ht hterminal hbehind last hlast)
    rw [reconcile_certain hflag, hkept]

theorem reconciles_iff (hdistinct : DistinctSeqs events)
    (hproduced : ∀ e ∈ events, Produced sha e) (hsha : NoCollision sha events) :
    Reconciles events ↔ Settled events :=
  ⟨settled_of_reconciles hdistinct hproduced hsha, reconciles_of_settled hdistinct⟩

end Outcome

/-- The digests of payloads without data. -/
def plainDigest : Digest String where
  null := "null"
  digest
    | ⟨.finished, .completed, "null"⟩ => "f887b184745b885c"
    | ⟨.failed, .failed, "null"⟩ => "31f80822b7453e14"
    | _ => ""

def failedOnce (seq : Nat) (failureClass : LaneFailureClass) : LaneEvent String :=
  ((LaneEventBuilder.new .failed .failed "" seq .liveLane 0).withFailureClass
    failureClass).buildTerminal plainDigest

def finishedOnce (seq : Nat) : LaneEvent String :=
  (LaneEventBuilder.new .finished .completed "" seq .liveLane 0).buildTerminal plainDigest

def failedTwice : List (LaneEvent String) := [failedOnce 1 .test, failedOnce 2 .compile]

def failedAfterDeath : List (LaneEvent String) :=
  [finishedOnce 1, (LaneEventBuilder.new .reconciled .reconciled "" 2 .transport 0).build,
    failedOnce 3 .compile]

theorem failedTwice_produced : ∀ e ∈ failedTwice, Produced plainDigest e := by
  simp [failedTwice, failedOnce, (Constructed.buildTerminal _).produced]

theorem failedAfterDeath_produced : ∀ e ∈ failedAfterDeath, Produced plainDigest e := by
  simp [failedAfterDeath, failedOnce, finishedOnce, (Constructed.buildTerminal _).produced,
    (Constructed.build _).produced]

theorem reconciles_iff_failed_twice : Reconciles failedTwice ↔ Settled failedTwice :=
  reconciles_iff (by decide) failedTwice_produced (by unfold NoCollision; decide)

theorem failed_twice_outcome :
    (reconcileTerminalEvents failedTwice).map Prod.fst = some (failedOnce 1 .test) := by
  have hsorted : sortBySeq failedTwice = failedTwice := sortBySeq_of_sorted (by decide)
  simp only [reconcileTerminalEvents, hsorted]
  rfl

theorem failed_after_death_outcome :
    (reconcileTerminalEvents failedAfterDeath).map Prod.fst =
      some (failedOnce 3 .compile).uncertain := by
  have hsorted : sortBySeq failedAfterDeath = failedAfterDeath := sortBySeq_of_sorted (by decide)
  simp only [reconcileTerminalEvents, hsorted]
  rfl

theorem late_failures_are_misreported :
    (DistinctSeqs failedTwice ∧ (∀ e ∈ failedTwice, Produced plainDigest e) ∧
      ¬ Reconciles failedTwice) ∧
    (DistinctSeqs failedAfterDeath ∧ (∀ e ∈ failedAfterDeath, Produced plainDigest e) ∧
      ¬ Reconciles failedAfterDeath) := by
  refine ⟨⟨by decide, failedTwice_produced, ?_⟩, by decide, failedAfterDeath_produced, ?_⟩
  · intro h
    have hlast : LastTerminal failedTwice (failedOnce 2 .compile) :=
      ⟨by simp [failedTwice], rfl, by decide⟩
    obtain ⟨t, hdiffer, -, hcertain⟩ := h.outcome _ hlast
    have houtcome := hcertain (by decide)
    rw [failed_twice_outcome, Option.some.injEq] at houtcome
    rw [← houtcome] at hdiffer
    exact absurd hdiffer (by decide)
  · intro h
    have hlast : LastTerminal failedAfterDeath (failedOnce 3 .compile) :=
      ⟨by simp [failedAfterDeath], rfl, by decide⟩
    obtain ⟨t, hdiffer, -, hcertain⟩ := h.outcome _ hlast
    have houtcome := hcertain (by decide)
    rw [failed_after_death_outcome, Option.some.injEq] at houtcome
    rw [← houtcome] at hdiffer
    exact absurd hdiffer (by decide)

end Loop

end DbClinic.Runtime.Lane
