import DbClinic.Lib.KeyMap
import DbClinic.Lib.Occurrences
import DbClinic.Runtime.LaneEvents
import DbClinic.Runtime.Json

/-!
The deduplication of commit events by their canonical commits. One loop decides what is
kept: a superseded commit event goes, and a later one takes back the one before it.
-/

namespace DbClinic.Runtime.Lane

open LastOccurrences List

abbrev CommitEvent := LaneEvent Serde.Value

/-- `canonicalCommit`, or `commit` where that is missing. -/
def commitKey (data : Serde.Value) : Option String :=
  ((data.get "canonicalCommit").or (data.get "commit")).bind Serde.Value.asStr

def supersededData (data : Serde.Value) : Bool :=
  ((data.get "supersededBy").bind Serde.Value.asStr).isSome

structure CommitScan where
  keep : List Bool
  latestByKey : KeyMap String Nat

/-- One round of the loop, for the event at `index`. -/
def scanCommit (scan : CommitScan) (event : CommitEvent) (index : Nat) : CommitScan :=
  if event.event ≠ .commitCreated then scan
  else match event.data with
    | none => scan
    | some data =>
      if supersededData data then { scan with keep := scan.keep.set index false }
      else match commitKey data with
        | none => scan
        | some key =>
          { latestByKey := scan.latestByKey.insert key index
            keep := match scan.latestByKey.get key with
              | some previous => scan.keep.set previous false
              | none => scan.keep }

def scanCommits (events : List CommitEvent) : CommitScan :=
  events.zipIdx.foldl (fun scan e => scanCommit scan e.1 e.2)
    { keep := List.replicate events.length true, latestByKey := .empty }

def dedupeSupersededCommitEvents (events : List CommitEvent) : List CommitEvent :=
  (events.zip (scanCommits events).keep).filterMap fun e => if e.2 then some e.1 else none

def isSuperseded (event : CommitEvent) : Bool :=
  event.event == .commitCreated && event.data.any supersededData

def liveKey (event : CommitEvent) : Option String :=
  if event.event = .commitCreated ∧ isSuperseded event = false then event.data.bind commitKey
  else none

def isLive (event : CommitEvent) : Bool := !isSuperseded event

variable {event : CommitEvent} {key : String} {events : List CommitEvent}

theorem isLive_of_liveKey (h : liveKey event = some key) :
    isLive event = true := by
  unfold liveKey at h
  split at h
  · simp_all [isLive]
  · cases h

/-- The flags after the events read so far, those behind them still unread. -/
structure Scanned (done rest : List CommitEvent) (scan : CommitScan) : Prop where
  keep : scan.keep = flags isLive liveKey done ++ List.replicate rest.length true
  latest : ∀ key, scan.latestByKey.get key = lastIndex liveKey key done

theorem scanCommit_eq (scan : CommitScan) (event : CommitEvent) (index : Nat) :
    scanCommit scan event index =
      if isSuperseded event then { scan with keep := scan.keep.set index false }
      else match liveKey event with
        | none => scan
        | some key =>
          { latestByKey := scan.latestByKey.insert key index
            keep := retract (scan.latestByKey.get key) scan.keep } := by
  by_cases hname : event.event = .commitCreated
  · cases hdata : event.data with
    | none => simp [scanCommit, isSuperseded, liveKey, hname, hdata]
    | some data =>
      cases hsuperseded : supersededData data with
      | true => simp [scanCommit, isSuperseded, hname, hdata, hsuperseded]
      | false =>
        cases hkey : commitKey data with
        | none => simp [scanCommit, isSuperseded, liveKey, hname, hdata, hsuperseded, hkey]
        | some key =>
          cases hlatest : scan.latestByKey.get key <;>
            simp [scanCommit, isSuperseded, liveKey, hname, hdata, hsuperseded, hkey,
              hlatest, retract]
  · simp [scanCommit, isSuperseded, liveKey, hname]

theorem liveKey_of_superseded (h : isSuperseded event = true) :
    liveKey event = none := by
  simp [liveKey, h]

variable {done rest : List CommitEvent} {scan : CommitScan}

theorem scanCommit_spec (h : Scanned done (event :: rest) scan) :
    Scanned (done ++ [event]) rest (scanCommit scan event done.length) := by
  obtain ⟨hkeep, hlatest⟩ := h
  rw [length_cons, replicate_succ] at hkeep
  rw [scanCommit_eq]
  cases hsuperseded : isSuperseded event with
  | true =>
    have hkey := liveKey_of_superseded hsuperseded
    constructor
    · simp only [if_true, hkeep, flags_append, hkey, isLive, hsuperseded]
      rw [set_append_right _ _ (by simp)]
      simp [retract]
    · simp [lastIndex_append, hkey, hlatest]
  | false =>
    have hlive : isLive event = true := by simp [isLive, hsuperseded]
    cases hkey : liveKey event with
    | none =>
      constructor
      · simp [hkeep, flags_append, hkey, hlive, retract]
      · simp [lastIndex_append, hkey, hlatest]
    | some key =>
      constructor
      · have hbound : ∀ i, lastIndex liveKey key done = some i →
            i < (flags isLive liveKey done).length := by
          simpa using fun i => lastIndex_lt
        simp [hkeep, hlatest, flags_append, hkey, hlive, retract_append _ hbound]
      · intro other
        by_cases hother : other = key
        · simp [lastIndex_append, hkey, hother]
        · have hne : ¬key = other := fun heq => hother heq.symm
          simp [lastIndex_append, hkey, hne, KeyMap.get_insert, hother, hlatest]

theorem scan_run (h : Scanned done rest scan) :
    Scanned (done ++ rest) []
      ((rest.zipIdx done.length).foldl (fun scan e => scanCommit scan e.1 e.2) scan) := by
  induction rest generalizing done scan with
  | nil => simpa using h
  | cons event rest ih =>
    have hnext := ih (scanCommit_spec h)
    simpa using hnext

theorem dedupe_eq_lasts (events : List CommitEvent) :
    dedupeSupersededCommitEvents events = lasts isLive liveKey events := by
  have hstart : Scanned [] events
      { keep := List.replicate events.length true, latestByKey := .empty } :=
    ⟨by simp [flags], fun _ => rfl⟩
  have hkeep := (scan_run hstart).keep
  simp only [nil_append, length_nil, replicate_zero, append_nil] at hkeep
  unfold dedupeSupersededCommitEvents scanCommits
  rw [hkeep, lasts_eq_flags]

/-- A commit event with the canonical commit, superseded or not. -/
def isCommitOf (key : String) (event : CommitEvent) : Bool :=
  event.event == .commitCreated && event.data.bind commitKey == some key

def marks (key : String) (event : CommitEvent) : Bool :=
  event.data.any fun data => supersededData data && commitKey data == some key

/-- The other events stay, of a canonical commit at most the last event stays, and none that
a later event marks as superseded. -/
structure DedupesCommits (events : List CommitEvent) : Prop where
  sublist : (dedupeSupersededCommitEvents events).Sublist events
  others : (dedupeSupersededCommitEvents events).filter (·.event != .commitCreated) =
    events.filter (·.event != .commitCreated)
  last : ∀ key, (dedupeSupersededCommitEvents events).filter (isCommitOf key) = [] ∨
    (dedupeSupersededCommitEvents events).filter (isCommitOf key) =
      (events.filter (isCommitOf key)).getLast?.toList
  superseded : ∀ key before mark after, events = before ++ mark :: after →
    marks key mark = true →
      ((dedupeSupersededCommitEvents events).filter (isCommitOf key)).Sublist after
  idempotent : dedupeSupersededCommitEvents (dedupeSupersededCommitEvents events) =
    dedupeSupersededCommitEvents events

/-- A canonical commit that is superseded after a live event has a live event again. -/
def Revived (events : List CommitEvent) : Prop :=
  ∀ key before mark after, events = before ++ mark :: after → marks key mark = true →
    (∃ event ∈ before, liveKey event = some key) → ∃ event ∈ after, liveKey event = some key

theorem liveKey_eq_some_iff :
    liveKey event = some key ↔ isCommitOf key event = true ∧ isLive event = true := by
  by_cases hname : event.event = .commitCreated
  · cases hsuperseded : isSuperseded event <;>
      simp [liveKey, isCommitOf, isLive, hname, hsuperseded]
  · simp [liveKey, isCommitOf, hname]

theorem isLive_or_marks (h : isCommitOf key event = true) :
    isLive event = true ∨ marks key event = true := by
  cases hdata : event.data with
  | none => simp [isCommitOf, hdata] at h
  | some data =>
    have hkey : commitKey data = some key := by
      simp only [isCommitOf, hdata, Option.bind_some, Bool.and_eq_true, beq_iff_eq] at h
      exact h.2
    cases hsuperseded : supersededData data with
    | false => exact .inl (by simp [isLive, isSuperseded, hdata, hsuperseded])
    | true => exact .inr (by simp [marks, hdata, hsuperseded, hkey])

theorem liveKey_ne_of_marks (h : marks key event = true) :
    liveKey event ≠ some key := by
  intro hlive
  obtain ⟨hcommit, hlive⟩ := liveKey_eq_some_iff.mp hlive
  simp only [isCommitOf, Bool.and_eq_true, beq_iff_eq] at hcommit
  cases hdata : event.data with
  | none => simp [marks, hdata] at h
  | some data =>
    simp only [marks, hdata, Option.any_some, Bool.and_eq_true] at h
    simp [isLive, isSuperseded, hcommit.1, hdata, h.1] at hlive

theorem filter_isCommitOf_dedupe (key : String) (events : List CommitEvent) :
    (dedupeSupersededCommitEvents events).filter (isCommitOf key) =
      (events.filter (liveKey · == some key)).getLast?.toList := by
  rw [dedupe_eq_lasts, ← filter_key_lasts (fun _ _ => isLive_of_liveKey)]
  apply filter_congr
  intro event hevent
  have hlive := live_of_mem_lasts hevent
  apply Bool.eq_iff_iff.mpr
  simp [liveKey_eq_some_iff, hlive]

theorem filter_liveKey_eq_nil :
    events.filter (liveKey · == some key) = [] ↔ ∀ event ∈ events, liveKey event ≠ some key := by
  simp

theorem others_dedupe (events : List CommitEvent) :
    (dedupeSupersededCommitEvents events).filter (·.event != .commitCreated) =
      events.filter (·.event != .commitCreated) := by
  rw [dedupe_eq_lasts]
  apply filter_lasts
  intro event hother
  have hname : event.event ≠ .commitCreated := by simpa using hother
  simp [isLive, isSuperseded, liveKey, hname]

theorem superseded_of_revived (h : Revived events) {before after : List CommitEvent}
    {mark : CommitEvent} (hsplit : events = before ++ mark :: after)
    (hmark : marks key mark = true) :
    ((dedupeSupersededCommitEvents events).filter (isCommitOf key)).Sublist after := by
  rw [filter_isCommitOf_dedupe]
  have hmarkKey := liveKey_ne_of_marks hmark
  by_cases hafter : ∃ event ∈ after, liveKey event = some key
  · -- the last live event comes after the mark
    have hne : after.filter (liveKey · == some key) ≠ [] := by
      rw [ne_eq, filter_liveKey_eq_nil]
      push Not
      exact hafter
    have hlast : (events.filter (liveKey · == some key)).getLast? =
        some ((after.filter (liveKey · == some key)).getLast hne) := by
      rw [hsplit, filter_append, filter_cons_of_neg (by simpa using hmarkKey),
        getLast?_append, getLast?_eq_some_getLast hne]
      rfl
    rw [hlast]
    apply singleton_sublist.mpr
    exact (mem_filter.mp (getLast_mem hne)).1
  · have hbefore : ¬∃ event ∈ before, liveKey event = some key :=
      fun hlive => hafter (h key before mark after hsplit hmark hlive)
    have hnil : events.filter (liveKey · == some key) = [] := by
      rw [filter_liveKey_eq_nil, hsplit]
      push Not at hafter hbefore
      intro event hevent
      rcases mem_append.mp hevent with hb | hb
      · exact hbefore event hb
      · rcases mem_cons.mp hb with rfl | ha
        · exact hmarkKey
        · exact hafter event ha
    rw [hnil]
    exact nil_sublist _

theorem last_of_revived (h : Revived events) (key : String) :
    (dedupeSupersededCommitEvents events).filter (isCommitOf key) = [] ∨
      (dedupeSupersededCommitEvents events).filter (isCommitOf key) =
        (events.filter (isCommitOf key)).getLast?.toList := by
  rcases eq_nil_or_concat (events.filter (isCommitOf key)) with hnil | ⟨init, c, hcommits⟩
  · left
    apply eq_nil_of_subset_nil
    rw [← hnil]
    exact ((dedupe_eq_lasts events ▸ lasts_sublist events).filter _).subset
  · rw [concat_eq_append] at hcommits
    obtain ⟨front, back, rfl, -, hback⟩ := filter_eq_append_iff.mp hcommits
    obtain ⟨between, after, rfl, -, hcommit, hafter⟩ := filter_eq_cons_iff.mp hback
    rw [hcommits, getLast?_concat]
    have hsplit : front ++ (between ++ c :: after) = (front ++ between) ++ c :: after := by simp
    rcases isLive_or_marks hcommit with hlive | hmark
    · right
      have hkey := liveKey_eq_some_iff.mpr ⟨hcommit, hlive⟩
      have hnone : after.filter (liveKey · == some key) = [] := by
        rw [filter_liveKey_eq_nil]
        intro event hevent hlive
        exact filter_eq_nil_iff.mp hafter event hevent (liveKey_eq_some_iff.mp hlive).1
      rw [filter_isCommitOf_dedupe, hsplit, filter_append,
        filter_cons_of_pos (by simpa using hkey), hnone, getLast?_concat]
    · left
      have hkept := superseded_of_revived h hsplit hmark
      apply eq_nil_iff_forall_not_mem.mpr
      intro event hevent
      exact filter_eq_nil_iff.mp hafter event (hkept.subset hevent)
        (mem_filter.mp hevent).2

/-- What is kept is right exactly if no superseded commit is left without a live event. -/
theorem dedupesCommits_iff (events : List CommitEvent) :
    DedupesCommits events ↔ Revived events := by
  constructor
  · intro h key before mark after hsplit hmark ⟨event, hevent, hlive⟩
    have hkept := h.superseded key before mark after hsplit hmark
    rw [filter_isCommitOf_dedupe] at hkept
    have hne : events.filter (liveKey · == some key) ≠ [] := by
      rw [ne_eq, filter_liveKey_eq_nil]
      push Not
      exact ⟨event, by simp [hsplit, hevent], hlive⟩
    rw [getLast?_eq_some_getLast hne, Option.toList_some,
      singleton_sublist] at hkept
    have hlast := (mem_filter.mp (getLast_mem hne)).2
    exact ⟨_, hkept, by simpa using hlast⟩
  · intro h
    exact {
      sublist := by rw [dedupe_eq_lasts]; exact lasts_sublist events
      others := others_dedupe events
      last := last_of_revived h
      superseded := fun _ _ _ _ hsplit hmark => superseded_of_revived h hsplit hmark
      idempotent := by simp only [dedupe_eq_lasts, lasts_idempotent] }

/-- A commit event with what `LaneCommitProvenance` writes into it. -/
def commitEvent (commit : String) (supersededBy : List (String × Serde.Value)) : CommitEvent where
  event := .commitCreated
  status := .completed
  emittedAt := "2026-04-04T00:00:00Z"
  failureClass := none
  detail := none
  data := some (.object ([("branch", .string "feature/provenance"),
    ("canonicalCommit", .string "canon123"), ("commit", .string commit),
    ("lineage", .array [.string "old123", .string "new123"])] ++ supersededBy))
  metadata := .new 0 .liveLane 0

/-- The event that says so goes, and the one before it is left. -/
theorem superseded_commit_stays :
    ¬DedupesCommits [commitEvent "old123" [],
      commitEvent "old123" [("supersededBy", .string "new123")]] := by
  intro h
  have hnone := h.superseded "canon123" [commitEvent "old123" []] _ [] rfl (by decide)
  rw [filter_isCommitOf_dedupe] at hnone
  exact absurd (sublist_nil.mp hnone) (by decide)

end DbClinic.Runtime.Lane
