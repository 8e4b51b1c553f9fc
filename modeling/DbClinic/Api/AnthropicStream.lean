import DbClinic.Api.SseParser

/-!
The message stream of the Anthropic client. `nextEvent` hands on the events the
decoder finds in the chunks of the response and, when the response has ended,
the event of a last frame that no blank line ends. `observeEvent` keeps the
usage of the message and records it in the prompt cache. The request of the
stream is fixed, and what recording a usage returns is a parameter.
-/

namespace DbClinic.Api.Anthropic

open Framing (readAll)

/-- Why a call of `nextEvent` fails: reading the response, or decoding it. -/
inductive StreamError where
  | transport (message : String)
  | decode (error : ApiError)
  deriving DecidableEq

/-- What `chunk` returns call by call; the response ends after the last one. -/
abbrev Response := List (Except String (List UInt8))

/-- A prompt cache, with the usages it was given by `recordUsage`. -/
structure PromptCache (Record : Type) where
  recordOf : List Usage → Usage → Record
  recorded : List Usage

namespace PromptCache

variable {Record : Type}

def recordUsage (c : PromptCache Record) (usage : Usage) : Record × PromptCache Record :=
  (c.recordOf c.recorded usage, { c with recorded := c.recorded ++ [usage] })

end PromptCache

/-- What `observeEvent` reads and writes. -/
structure UsageTracker (Record : Type) where
  promptCache : Option (PromptCache Record)
  latestUsage : Option Usage
  usageRecorded : Bool
  lastPromptCacheRecord : Option Record

namespace UsageTracker

variable {Record : Type}

def observeEvent (t : UsageTracker Record) : StreamEvent → UsageTracker Record
  | .messageDelta _ _ usage => { t with latestUsage := some usage }
  | .messageStop =>
    if t.usageRecorded then t
    else match t.promptCache, t.latestUsage with
      | some promptCache, some usage =>
        let result := promptCache.recordUsage usage
        { t with
          promptCache := some result.2
          lastPromptCacheRecord := some result.1
          usageRecorded := true }
      | _, _ => { t with usageRecorded := true }
  | _ => t

end UsageTracker

structure MessageStream (Record : Type) where
  parser : SseParser
  pending : List StreamEvent
  done : Bool
  tracker : UsageTracker Record

namespace MessageStream

variable {Record : Type} (serde : Serde)

/-- The stream of a request for a model, as `stream_message` starts it. -/
def new (model : String) (promptCache : Option (PromptCache Record))
    (lastPromptCacheRecord : Option Record) : MessageStream Record where
  parser := ⟨[], some "Anthropic", some model⟩
  pending := []
  done := false
  tracker := ⟨promptCache, none, false, lastPromptCacheRecord⟩

/-- The end of the response: the events `finish` finds are not observed. -/
def finishEvents (m : MessageStream Record) :
    Except StreamError (Option StreamEvent) × MessageStream Record :=
  match m.parser.finish serde with
  | (.error e, parser) => (.error (.decode e), { m with parser })
  | (.ok [], parser) => (.ok none, { m with parser })
  | (.ok (event :: rest), parser) => (.ok (some event), { m with parser, pending := rest })

/-- The next event, with the part of the response that was not read yet. -/
def nextEvent : Response → MessageStream Record →
    Except StreamError (Option StreamEvent) × MessageStream Record × Response
  | [], m =>
    match m.pending with
    | event :: rest =>
      (.ok (some event), { m with pending := rest, tracker := m.tracker.observeEvent event },
        [])
    | [] =>
      let result := finishEvents serde { m with done := true }
      (result.1, result.2, [])
  | chunk :: later, m =>
    match m.pending with
    | event :: rest =>
      (.ok (some event), { m with pending := rest, tracker := m.tracker.observeEvent event },
        chunk :: later)
    | [] =>
      if m.done then
        let result := finishEvents serde m
        (result.1, result.2, chunk :: later)
      else match chunk with
        | .error message => (.error (.transport message), m, later)
        | .ok bytes =>
          match m.parser.push serde bytes with
          | (.error e, parser) => (.error (.decode e), { m with parser }, later)
          | (.ok events, parser) => nextEvent later { m with parser, pending := events }

/-- Consecutive calls of `nextEvent` that return these events. -/
inductive Calls : Response → MessageStream Record → List StreamEvent →
    Response → MessageStream Record → Prop
  | nil {response m} : Calls response m [] response m
  | cons {response m event next middle events later last}
      (h : nextEvent serde response m = (.ok (some event), next, middle))
      (rest : Calls middle next events later last) :
      Calls response m (event :: events) later last

end MessageStream

def usageOf : StreamEvent → Option Usage
  | .messageDelta _ _ usage => some usage
  | _ => none

def lastUsage (events : List StreamEvent) : Option Usage := (events.filterMap usageOf).getLast?

namespace UsageTracker

variable {Record : Type}

def observeAll (t : UsageTracker Record) (events : List StreamEvent) : UsageTracker Record :=
  events.foldl observeEvent t

theorem observeEvent_eq (t : UsageTracker Record) {event : StreamEvent}
    (h : event ≠ .messageStop) :
    t.observeEvent event = { t with latestUsage := (usageOf event).or t.latestUsage } := by
  cases event with
  | messageStop => exact absurd rfl h
  | _ => rfl

theorem observeAll_eq (t : UsageTracker Record) {events : List StreamEvent}
    (h : StreamEvent.messageStop ∉ events) :
    t.observeAll events = { t with latestUsage := (lastUsage events).or t.latestUsage } := by
  induction events using List.reverseRecOn with
  | nil => rfl
  | append_singleton events event ih =>
    simp only [List.mem_append, List.mem_singleton, not_or] at h
    have hbefore := ih h.1
    have hsnoc : t.observeAll (events ++ [event]) = (t.observeAll events).observeEvent event :=
      List.foldl_append
    rw [hsnoc, hbefore, observeEvent_eq _ (Ne.symm h.2)]
    unfold lastUsage
    cases husage : usageOf event <;> simp [husage]

theorem observeAll_stop (cache : PromptCache Record) (record : Option Record)
    {events : List StreamEvent} {usage : Usage} (h : StreamEvent.messageStop ∉ events)
    (husage : lastUsage events = some usage) :
    ((⟨some cache, none, false, record⟩ : UsageTracker Record).observeAll
      (events ++ [.messageStop])).promptCache =
        some { cache with recorded := cache.recorded ++ [usage] } := by
  have hsnoc (t : UsageTracker Record) : t.observeAll (events ++ [.messageStop]) =
      (t.observeAll events).observeEvent .messageStop := List.foldl_append
  rw [hsnoc, observeAll_eq _ h, husage]
  rfl

end UsageTracker

end DbClinic.Api.Anthropic
