import DbClinic.Server.Wired

/-!
The writers of a session file. A history logs when a runtime is built on a path
and which messages are appended to it. A runtime is the only writer of its file
as long as every build finds the path free: no live session and no worker with
a turn in progress or still to run is bound to it.
-/

namespace DbClinic.Server

open DbClinic.Runtime Persistence Transition List Function

/-- What happens to a session file: a runtime is built on it, which loads it or
writes its first record, or a runtime appends a message. -/
inductive FileEvent where
  | built (path : Path) (entry : Nat)
  | appended (path : Path) (entry : Nat) (message : ConversationMessage)

def FileEvent.entry : FileEvent → Nat
  | .built _ r => r
  | .appended _ r _ => r

def segmentAfter (path : Path) (segment : List (Nat × ConversationMessage)) :
    FileEvent → List (Nat × ConversationMessage)
  | .built p _ => if p = path then [] else segment
  | .appended p r m => if p = path then segment ++ [(r, m)] else segment

/-- What was appended to a file since a runtime was last built on it, each
message with the runtime it came from. -/
def segment (path : Path) (log : List FileEvent) : List (Nat × ConversationMessage) :=
  log.foldl (segmentAfter path) []

def pushedBy (r : Nat) (log : List FileEvent) : List ConversationMessage :=
  log.filterMap fun
    | .built _ _ => none
    | .appended _ r' m => if r' = r then some m else none

structure WriterHistory where
  kernel : Kernel
  log : List FileEvent

def appendedBy (k k' : Kernel) (w : Nat) : List FileEvent :=
  match k.workers w with
  | none => []
  | some worker =>
    match k.entries worker.entry, k'.entries worker.entry with
    | some e, some e' =>
      match e.runtime.session.persistencePath with
      | none => []
      | some path =>
        (e'.runtime.session.messages.drop e.runtime.session.messages.length).map
          (.appended path worker.entry)
    | _, _ => []

def builtOn (k : Kernel) (session : Session) : List FileEvent :=
  match session.persistencePath with
  | none => []
  | some path => [.built path k.next]

/-- The events of a step. Compaction replaces the messages in memory and does
not write. -/
def fileEvents (k k' : Kernel) : Action → List FileEvent
  | .create req stamps => builtOn k (k.createdSession req stamps).1
  | .resume req stamps =>
    match k.sessions req.sessionId with
    | none => builtOn k (Kernel.resumedSession k.disk req stamps).1
    | some _ => []
  | .turn _ (.complete _) => []
  | .turn w _ => appendedBy k k' w
  | _ => []

def WriterHistory.step (h : WriterHistory) (a : Action) : Option WriterHistory :=
  (h.kernel.step a).map fun k' => ⟨k', h.log ++ fileEvents h.kernel k' a⟩

def WriterHistory.start (disk : SessionTree) (backend : SessionBackend) : WriterHistory :=
  ⟨.start disk backend, []⟩

def BoundTo (k : Kernel) (r : Nat) (path : Path) : Prop :=
  ∃ e, k.entries r = some e ∧ e.runtime.session.persistencePath = some path

/-- No two runtimes bound to one path have a turn in progress or still to run. -/
def SingleWriter (k : Kernel) : Prop :=
  ∀ w₁ w₂ worker₁ worker₂ path, k.workers w₁ = some worker₁ → k.workers w₂ = some worker₂ →
    worker₁.phase.unfinished = true → worker₂.phase.unfinished = true →
    BoundTo k worker₁.entry path → BoundTo k worker₂.entry path →
    worker₁.entry = worker₂.entry

/-- What was appended to a file since it was last loaded is what one runtime
appended, in its order. -/
def SegmentsOfOne (log : List FileEvent) : Prop :=
  ∀ path, ∃ r, segment path log = (pushedBy r log).map fun m => (r, m)

/-- No live session is bound to the path, and no worker that is not done. -/
def PathFree (k : Kernel) (path : Path) : Prop :=
  (∀ sid handle, k.sessions sid = some handle → ¬ BoundTo k handle.entry path) ∧
    ∀ w worker, k.workers w = some worker → worker.phase.unfinished = true →
      ¬ BoundTo k worker.entry path

def BuiltOnFreePath (k : Kernel) : Action → Prop
  | .create req stamps => ∀ path,
      (k.createdSession req stamps).1.persistencePath = some path → PathFree k path
  | .resume req _ => k.sessions req.sessionId = none → PathFree k (Kernel.resumePath req)
  | _ => True

/-- The invariant: `writer` names the runtime a path was last built for. -/
structure WriterInv (writer : Path → Option Nat) (h : WriterHistory) : Prop where
  wired : Wired h.kernel
  handle : ∀ sid handle path, h.kernel.sessions sid = some handle →
    BoundTo h.kernel handle.entry path → writer path = some handle.entry
  worker : ∀ w worker path, h.kernel.workers w = some worker →
    worker.phase.unfinished = true → BoundTo h.kernel worker.entry path →
    writer path = some worker.entry
  below : ∀ path r, writer path = some r → r < h.kernel.next
  injective : ∀ path path' r, writer path = some r → writer path' = some r → path = path'
  logged : ∀ event ∈ h.log, event.entry < h.kernel.next
  written : ∀ path r, writer path = some r →
    segment path h.log = (pushedBy r h.log).map fun m => (r, m)
  unwritten : ∀ path, writer path = none → segment path h.log = []

section Log

theorem segment_append (path : Path) (log : List FileEvent) (event : FileEvent) :
    segment path (log ++ [event]) = segmentAfter path (segment path log) event := by
  rw [segment, foldl_append]
  rfl

theorem pushedBy_append (r : Nat) (log events : List FileEvent) :
    pushedBy r (log ++ events) = pushedBy r log ++ pushedBy r events :=
  filterMap_append

theorem pushedBy_fresh {r : Nat} {log : List FileEvent} (h : ∀ event ∈ log, event.entry < r) :
    pushedBy r log = [] := by
  rw [pushedBy, filterMap_eq_nil_iff]
  intro event hevent
  have hlt := h event hevent
  cases event with
  | built path r' => rfl
  | appended path r' m =>
    have hne : r' ≠ r := Nat.ne_of_lt hlt
    exact if_neg hne

theorem pushedBy_appended (r r' : Nat) (path : Path) (messages : List ConversationMessage) :
    pushedBy r (messages.map (.appended path r')) = if r' = r then messages else [] := by
  induction messages with
  | nil => simp [pushedBy]
  | cons m rest ih =>
    rw [map_cons, pushedBy, filterMap_cons]
    rw [pushedBy] at ih
    split
    · rename_i hnone
      rw [ih]
      split at hnone <;> simp_all
    · rename_i hsome
      rw [ih]
      split at hsome <;> simp_all

theorem segment_appended (path path' : Path) (r : Nat) (log : List FileEvent)
    (messages : List ConversationMessage) :
    segment path (log ++ messages.map (.appended path' r)) =
      segment path log ++ if path' = path then messages.map (fun m => (r, m)) else [] := by
  induction messages generalizing log with
  | nil => simp
  | cons m rest ih =>
    have hsplit : log ++ (m :: rest).map (.appended path' r) =
        (log ++ [.appended path' r m]) ++ rest.map (.appended path' r) := by simp
    rw [hsplit, ih, segment_append, segmentAfter]
    split <;> simp

end Log

variable {writer : Path → Option Nat}

variable {h : WriterHistory} {k' k : Kernel} {path : Path} {session : Session}

theorem WriterInv.singleWriter (hinv : WriterInv writer h) :
    SingleWriter h.kernel := by
  intro w₁ w₂ worker₁ worker₂ path hw₁ hw₂ hun₁ hun₂ hbound₁ hbound₂
  have hone := hinv.worker w₁ worker₁ path hw₁ hun₁ hbound₁
  have htwo := hinv.worker w₂ worker₂ path hw₂ hun₂ hbound₂
  exact Option.some.inj (hone.symm.trans htwo)

theorem WriterInv.segmentsOfOne (hinv : WriterInv writer h) :
    SegmentsOfOne h.log := by
  intro path
  rcases hwriter : writer path with - | r
  · refine ⟨h.kernel.next, ?_⟩
    rw [hinv.unwritten path hwriter, pushedBy_fresh hinv.logged]
    rfl
  · exact ⟨r, hinv.written path r hwriter⟩

theorem Quiet.boundTo (hq : Quiet k k') {r : Nat} (h : BoundTo k' r path) : BoundTo k r path := by
  obtain ⟨e', he', hpath⟩ := h
  obtain ⟨e, he, hwiring⟩ := hq.entry he'
  refine ⟨e, he, ?_⟩
  have hsame : e'.wiring.path = e.wiring.path := congrArg Wiring.path hwiring
  exact hsame.symm.trans hpath

theorem WriterInv.quiet (hinv : WriterInv writer h) (hq : Quiet h.kernel k') :
    WriterInv writer ⟨k', h.log⟩ := by
  have hnext := hq.next
  refine ⟨hq.wired hinv.wired, fun sid handle path hhandle hbound => ?_,
    fun w worker' path hworker' hun hbound => ?_, fun path r hwriter => ?_, hinv.injective,
    fun event hevent => ?_, hinv.written, hinv.unwritten⟩
  · change k'.sessions sid = _ at hhandle
    rw [hq.sessions] at hhandle
    exact hinv.handle sid handle path hhandle (hq.boundTo hbound)
  · obtain ⟨worker, hworker, -, hentry, hback⟩ := hq.workers w worker' hworker'
    rw [hentry] at hbound ⊢
    exact hinv.worker w worker path hworker (hback hun) (hq.boundTo hbound)
  · exact Nat.lt_of_lt_of_le (hinv.below path r hwriter) hnext
  · exact Nat.lt_of_lt_of_le (hinv.logged event hevent) hnext

theorem WriterInv.appended (hinv : WriterInv writer h) {r : Nat} (hwriter : writer path = some r)
    (messages : List ConversationMessage) :
    WriterInv writer ⟨h.kernel, h.log ++ messages.map (.appended path r)⟩ := by
  refine ⟨hinv.wired, hinv.handle, hinv.worker, hinv.below, hinv.injective,
    fun event hevent => ?_, fun path' r' hwriter' => ?_, fun path' hnone => ?_⟩
  · rcases mem_append.mp hevent with hold | hnew
    · exact hinv.logged event hold
    · obtain ⟨m, -, rfl⟩ := mem_map.mp hnew
      exact hinv.below path r hwriter
  · rw [segment_appended, pushedBy_append, pushedBy_appended, map_append,
      hinv.written path' r' hwriter']
    rcases eq_or_ne r r' with rfl | hne
    · rw [hinv.injective path path' r hwriter hwriter', if_pos rfl, if_pos rfl]
    · have hpath : path ≠ path' := by
        rintro rfl
        exact hne (Option.some.inj (hwriter.symm.trans hwriter'))
      rw [if_neg hpath, if_neg hne]
      rfl
  · have hpath : path ≠ path' := by
      rintro rfl
      rw [hwriter] at hnone
      cases hnone
    rw [segment_appended, if_neg hpath, append_nil]
    exact hinv.unwritten path' hnone

section Install

variable {k : Kernel} {key : String} {session : Session} {record : SessionRecord}
  {maxIterations : Option Nat} {channels msgCount : Nat} {stamps : SaveStamps}

theorem install_boundTo {r : Nat}
    (h : BoundTo (k.install key session record maxIterations channels msgCount stamps) r path) :
    (r = k.next ∧ session.persistencePath = some path) ∨ (r ≠ k.next ∧ BoundTo k r path) := by
  obtain ⟨e, he, hpath⟩ := h
  rw [Kernel.install_entries] at he
  rcases update_eq_some he with ⟨rfl, hnew⟩ | ⟨hne, he⟩
  · cases hnew
    exact .inl ⟨rfl, hpath⟩
  · exact .inr ⟨hne, e, he, hpath⟩

theorem install_handle {sid : String} {handle : SessionHandle}
    (hhandle : (k.install key session record maxIterations channels msgCount stamps).sessions sid =
      some handle)
    (hbound : BoundTo (k.install key session record maxIterations channels msgCount stamps)
      handle.entry path) :
    (handle.entry = k.next ∧ session.persistencePath = some path) ∨
      (k.sessions sid = some handle ∧ BoundTo k handle.entry path) := by
  rcases install_boundTo hbound with hnew | ⟨hne, hold⟩
  · exact .inl hnew
  · change Function.update k.sessions key _ sid = _ at hhandle
    rcases update_eq_some hhandle with ⟨rfl, hnew⟩ | ⟨-, hhandle⟩
    · cases hnew
      exact absurd rfl hne
    · exact .inr ⟨hhandle, hold⟩

theorem install_worker {w : Nat} {worker : Worker} (hk : Wired k)
    (hworker : k.workers w = some worker)
    (hbound : BoundTo (k.install key session record maxIterations channels msgCount stamps)
      worker.entry path) : BoundTo k worker.entry path := by
  obtain ⟨-, e, he⟩ := hk.worker w worker hworker
  have hlt := (hk.entry _ e he).1
  rcases install_boundTo hbound with ⟨hnew, -⟩ | ⟨-, hold⟩
  · omega
  · exact hold

end Install

theorem WriterInv.install (hinv : WriterInv writer h) (hpath : session.persistencePath = some path)
    (hfree : PathFree h.kernel path) (key : String) (record : SessionRecord)
    (maxIterations : Option Nat) (channels msgCount : Nat) (stamps : SaveStamps) :
    WriterInv (Function.update writer path (some h.kernel.next))
      ⟨h.kernel.install key session record maxIterations channels msgCount stamps,
        h.log ++ [.built path h.kernel.next]⟩ := by
  have hfresh : pushedBy h.kernel.next h.log = [] := pushedBy_fresh hinv.logged
  have hpushed : ∀ r, pushedBy r (h.log ++ [.built path h.kernel.next]) = pushedBy r h.log := by
    intro r
    rw [pushedBy_append]
    exact append_nil _
  refine ⟨Kernel.install_wired hinv.wired .., fun sid handle p hhandle hbound => ?_,
    fun w worker p hworker hun hbound => ?_, fun p r hwriter => ?_, fun p p' r hp hp' => ?_,
    fun event hevent => ?_, fun p r hwriter => ?_, fun p hnone => ?_⟩
  · rcases install_handle hhandle hbound with ⟨hentry, hp⟩ | ⟨hold, hbound'⟩
    · cases hpath.symm.trans hp
      rw [update_self, hentry]
    · have hne : p ≠ path := by
        rintro rfl
        exact hfree.1 sid handle hold hbound'
      rw [update_of_ne hne]
      exact hinv.handle sid handle p hold hbound'
  · have hbound' := install_worker hinv.wired hworker hbound
    have hne : p ≠ path := by
      rintro rfl
      exact hfree.2 w worker hworker hun hbound'
    rw [update_of_ne hne]
    exact hinv.worker w worker p hworker hun hbound'
  · change r < h.kernel.next + 1
    rcases update_eq_some hwriter with ⟨rfl, hnew⟩ | ⟨-, hwriter⟩
    · cases hnew
      exact Nat.lt_succ_self _
    · exact Nat.lt_succ_of_lt (hinv.below p r hwriter)
  · rcases eq_or_ne p path with rfl | hne <;> rcases eq_or_ne p' p with rfl | hne'
    · rfl
    · rw [update_self] at hp
      rw [update_of_ne hne'] at hp'
      cases hp
      exact absurd (hinv.below p' _ hp') (Nat.lt_irrefl _)
    · rfl
    · rw [update_of_ne hne] at hp
      rcases update_eq_some hp' with ⟨rfl, hnew⟩ | ⟨-, hp'⟩
      · cases hnew
        exact absurd (hinv.below p _ hp) (Nat.lt_irrefl _)
      · exact hinv.injective p p' r hp hp'
  · change event.entry < h.kernel.next + 1
    rcases mem_append.mp hevent with hold | hnew
    · exact Nat.lt_succ_of_lt (hinv.logged event hold)
    · rw [mem_singleton] at hnew
      subst hnew
      exact Nat.lt_succ_self _
  · rw [segment_append, segmentAfter, hpushed]
    rcases update_eq_some hwriter with ⟨rfl, hnew⟩ | ⟨hne, hwriter⟩
    · cases hnew
      rw [if_pos rfl, hfresh]
      rfl
    · rw [if_neg (Ne.symm hne)]
      exact hinv.written p r hwriter
  · rcases eq_or_ne p path with rfl | hne
    · rw [update_self] at hnone
      cases hnone
    · rw [update_of_ne hne] at hnone
      rw [segment_append, segmentAfter, if_neg (Ne.symm hne)]
      exact hinv.unwritten p hnone

theorem WriterInv.installUnbound (hinv : WriterInv writer h)
    (hpath : session.persistencePath = none) (key : String) (record : SessionRecord)
    (maxIterations : Option Nat) (channels msgCount : Nat) (stamps : SaveStamps) :
    WriterInv writer
      ⟨h.kernel.install key session record maxIterations channels msgCount stamps, h.log⟩ := by
  refine ⟨Kernel.install_wired hinv.wired .., fun sid handle p hhandle hbound => ?_,
    fun w worker p hworker hun hbound => ?_, fun p r hwriter => ?_, hinv.injective,
    fun event hevent => ?_, hinv.written, hinv.unwritten⟩
  · rcases install_handle hhandle hbound with ⟨-, hp⟩ | ⟨hold, hbound'⟩
    · rw [hpath] at hp
      cases hp
    · exact hinv.handle sid handle p hold hbound'
  · exact hinv.worker w worker p hworker hun (install_worker hinv.wired hworker hbound)
  · exact Nat.lt_succ_of_lt (hinv.below p r hwriter)
  · exact Nat.lt_succ_of_lt (hinv.logged event hevent)

theorem WriterInv.withDisk (hinv : WriterInv writer h) (disk : SessionTree) :
    WriterInv writer ⟨{ h.kernel with disk }, h.log⟩ :=
  ⟨Kernel.withDisk_wired hinv.wired disk, hinv.handle, hinv.worker, hinv.below, hinv.injective,
    hinv.logged, hinv.written, hinv.unwritten⟩

theorem WriterInv.build (hinv : WriterInv writer h)
    (hfree : ∀ path, session.persistencePath = some path → PathFree h.kernel path)
    (disk : SessionTree) (key : String) (record : SessionRecord) (maxIterations : Option Nat)
    (channels msgCount : Nat) (stamps : SaveStamps) :
    ∃ writer', WriterInv writer'
      ⟨{ h.kernel with disk }.install key session record maxIterations channels msgCount stamps,
        h.log ++ builtOn h.kernel session⟩ := by
  rcases hpath : session.persistencePath with - | path
  · refine ⟨writer, ?_⟩
    rw [builtOn, hpath, append_nil]
    exact (hinv.withDisk disk).installUnbound hpath ..
  · refine ⟨Function.update writer path (some h.kernel.next), ?_⟩
    rw [builtOn, hpath]
    exact (hinv.withDisk disk).install hpath (hfree path hpath) ..

theorem WriterInv.runTurnStreaming (hinv : WriterInv writer h) (sid text : String)
    (ctx : Option String) :
    WriterInv writer ⟨h.kernel.runTurnStreaming sid text ctx, h.log⟩ := by
  have hwired := Kernel.runTurnStreaming_wired hinv.wired sid text ctx
  unfold Kernel.runTurnStreaming at hwired ⊢
  split at hwired
  · exact hinv
  rename_i old hold
  refine ⟨hwired, fun sid' handle p hhandle hbound => ?_,
    fun w worker p hworker hun hbound => ?_, fun p r hwriter => ?_, hinv.injective,
    fun event hevent => ?_, hinv.written, hinv.unwritten⟩
  · change Function.update h.kernel.sessions sid _ sid' = _ at hhandle
    rcases update_eq_some hhandle with ⟨rfl, hnew⟩ | ⟨-, hhandle⟩
    · cases hnew
      exact hinv.handle sid' old p hold hbound
    · exact hinv.handle sid' handle p hhandle hbound
  · change Function.update h.kernel.workers h.kernel.next _ w = _ at hworker
    rcases update_eq_some hworker with ⟨rfl, hnew⟩ | ⟨-, hworker⟩
    · cases hnew
      exact hinv.handle sid old p hold hbound
    · exact hinv.worker w worker p hworker hun hbound
  · exact Nat.lt_succ_of_lt (hinv.below p r hwriter)
  · exact Nat.lt_succ_of_lt (hinv.logged event hevent)

theorem turn_events {w : Nat} {act : TurnAct} (hstep : k.turn w act = some k') :
    fileEvents k k' (.turn w act) = [] ∨
      ∃ (worker : Worker) (path : Path) (messages : List ConversationMessage),
        k.workers w = some worker ∧ worker.phase.unfinished = true ∧
        BoundTo k worker.entry path ∧
        fileEvents k k' (.turn w act) = messages.map (.appended path worker.entry) := by
  have hcompact : fileEvents k k' (.turn w act) = [] ∨
      fileEvents k k' (.turn w act) = appendedBy k k' w := by
    cases act <;> first | exact .inr rfl | exact .inl rfl
  rcases hcompact with hnone | hevents
  · exact .inl hnone
  obtain ⟨worker, entry, v', hworker, hentry, heffect, rfl⟩ := Kernel.turn_cases hstep
  have hentry' : (k.put w worker v').entries worker.entry = some v'.entry :=
    update_self ..
  rw [hevents, appendedBy, hworker]
  dsimp only
  rw [hentry, hentry']
  dsimp only
  rcases hpath : entry.runtime.session.persistencePath with - | path
  · exact .inl rfl
  rcases hun : worker.phase.unfinished with - | -
  · left
    rcases heffect.working with hworking | ⟨-, hsame⟩
    · cases hun.symm.trans hworking
    · rw [hsame]
      change List.map _ (List.drop _ entry.runtime.session.messages) = []
      rw [drop_length]
      rfl
  · right
    exact ⟨worker, path, _, rfl, hun, ⟨entry, hentry, hpath⟩, rfl⟩

theorem fileEvents_aside {a : Action} (ha : a.isAside = true) :
    fileEvents k k' a = [] := by
  cases a <;> first | rfl | cases ha

theorem WriterInv.step {h' : WriterHistory} {a : Action} (hinv : WriterInv writer h)
    (hstep : h.step a = some h') (hok : BuiltOnFreePath h.kernel a) :
    ∃ writer', WriterInv writer' h' := by
  obtain ⟨k', hk', rfl⟩ := Option.map_eq_some_iff.mp hstep
  have hkept : fileEvents h.kernel k' a = [] → WriterInv writer ⟨k', h.log⟩ →
      ∃ writer', WriterInv writer' ⟨k', h.log ++ fileEvents h.kernel k' a⟩ := by
    intro hnone hsame
    refine ⟨writer, ?_⟩
    rw [hnone, append_nil]
    exact hsame
  cases a using Action.byKind with
  | create req stamps =>
    cases hk'
    exact hinv.build hok ..
  | resume req stamps =>
    cases hk'
    rcases hsession : h.kernel.sessions req.sessionId with - | handle
    · obtain ⟨record, hbuilt⟩ := Kernel.resume_builds hsession stamps
      have hfree : ∀ path, (Kernel.resumedSession h.kernel.disk req stamps).1.persistencePath =
          some path → PathFree h.kernel path := by
        intro path hpath
        rw [Kernel.resumedSession_path] at hpath
        cases hpath
        exact hok hsession
      rw [fileEvents, hsession, hbuilt]
      exact hinv.build hfree ..
    · apply hkept
      · rw [fileEvents, hsession]
      · rw [Kernel.resume_live hsession stamps]
        exact hinv
  | runTurnStreaming sid text ctx =>
    cases hk'
    exact hkept rfl (hinv.runTurnStreaming sid text ctx)
  | remove sid =>
    have hwired := Kernel.step_wired hk' hinv.wired
    cases hk'
    apply hkept rfl
    refine ⟨hwired, fun sid' handle path hhandle hbound => ?_, hinv.worker, hinv.below,
      hinv.injective, hinv.logged, hinv.written, hinv.unwritten⟩
    change Function.update h.kernel.sessions sid none sid' = _ at hhandle
    rcases update_eq_some hhandle with ⟨rfl, hnew⟩ | ⟨-, hhandle⟩
    · cases hnew
    · exact hinv.handle sid' handle path hhandle hbound
  | restart =>
    have hwired := Kernel.step_wired hk' hinv.wired
    cases hk'
    apply hkept rfl
    refine ⟨hwired, fun sid handle path hhandle _ => ?_, fun w worker path hworker _ _ => ?_,
      hinv.below, hinv.injective, hinv.logged, hinv.written, hinv.unwritten⟩
    · cases hhandle
    · cases hworker
  | turn w act =>
    have hquiet := hinv.quiet (Kernel.turn_quiet hk')
    rcases turn_events hk' with hnone | ⟨worker, path, messages, hworker, hun, hbound, hevents⟩
    · exact hkept hnone hquiet
    · refine ⟨writer, ?_⟩
      rw [hevents]
      exact hquiet.appended (hinv.worker w worker path hworker hun hbound) messages
  | aside a haside =>
    exact hkept (fileEvents_aside haside) (hinv.quiet (Kernel.step_aside hk' haside).quiet)

/-- In every run whose builds all find their path free, a session file has one
writer at a time, and what is appended to it between two loads is what one
runtime appends, in its order. -/
theorem single_writer_along (disk : SessionTree) (backend : SessionBackend) (acts : List Action)
    (hfree : Meets WriterHistory.step (fun h a => BuiltOnFreePath h.kernel a)
      (.start disk backend) acts) :
    Along WriterHistory.step (fun h => SingleWriter h.kernel ∧ SegmentsOfOne h.log)
      (.start disk backend) acts := by
  have hinit : ∃ writer, WriterInv writer (.start disk backend) := by
    refine ⟨fun _ => none, Kernel.wired_start disk backend, ?_, ?_, ?_, ?_, ?_, ?_, fun _ _ => rfl⟩
    · intro sid handle path hhandle
      cases hhandle
    · intro w worker path hworker
      cases hworker
    · intro path r hwriter
      cases hwriter
    · intro path path' r hwriter
      cases hwriter
    · intro event hevent
      cases hevent
    · intro path r hwriter
      cases hwriter
  have halong := hfree.along (I := fun h => ∃ writer, WriterInv writer h)
    (fun h a h' ⟨writer, hinv⟩ hstep hok => hinv.step hstep hok) hinit
  exact halong.mono fun h ⟨writer, hinv⟩ => ⟨hinv.singleWriter, hinv.segmentsOfOne⟩

/-- A session of a fresh process is created on a path that is free. -/
theorem single_writer_along_first_turn :
    let stamps : CommandStamps := ⟨1, ⟨2, 0⟩, 3, ⟨4, ⟨5, 1⟩, 6⟩, ⟨7, ⟨8, 2⟩, 9⟩⟩
    let acts : List Action :=
      [.create ⟨"mock", none, 0, some "/data", none⟩ stamps,
        .runTurnStreaming "session-2-0" "why is it slow?" none, .turn 1 .acquire,
        .turn 1 (.enter (.ok ()) ⟨10, ⟨11, ⟨12, 3⟩, 13⟩⟩)]
    Along WriterHistory.step (fun h => SingleWriter h.kernel ∧ SegmentsOfOne h.log)
      (.start .empty (.memory .new)) acts := by
  apply single_writer_along
  refine fun h _ => ⟨fun path _ => ⟨fun sid handle hhandle => ?_, fun w worker hworker => ?_⟩,
    fun _ _ => ⟨trivial, fun _ _ => ⟨trivial, fun _ _ => ⟨trivial, trivial⟩⟩⟩⟩
  · cases hhandle
  · cases hworker

def reopenedTurn : List Action :=
  let stamps : CommandStamps := ⟨1, ⟨2, 0⟩, 3, ⟨4, ⟨5, 1⟩, 6⟩, ⟨7, ⟨8, 2⟩, 9⟩⟩
  [.create ⟨"mock", none, 0, some "/data", none⟩ stamps,
    .runTurnStreaming "session-2-0" "why is it slow?" none, .turn 1 .acquire,
    .remove "session-2-0", .resume ⟨"session-2-0", "/data", "", "mock", none, 1⟩ stamps,
    .runTurnStreaming "session-2-0" "and now?" none]

/-- Two runtimes work on the file of the session. -/
theorem reopened_session_has_two_writers :
    ¬ ∀ disk backend acts,
      Along WriterHistory.step (fun h => SingleWriter h.kernel ∧ SegmentsOfOne h.log)
        (.start disk backend) acts := by
  intro hlaw
  let path := Kernel.resumePath ⟨"session-2-0", "/data", "", "mock", none, 1⟩
  have hrun : (run WriterHistory.step (.start .empty (.memory .new)) reopenedTurn).any (fun h =>
      (h.kernel.workers 1).map (fun x => (x.entry, x.phase.unfinished)) = some (0, true) ∧
      (h.kernel.workers 3).map (fun x => (x.entry, x.phase.unfinished)) = some (2, true) ∧
      (h.kernel.entries 0).map (fun e => e.runtime.session.persistencePath) = some (some path) ∧
      (h.kernel.entries 2).map (fun e => e.runtime.session.persistencePath) = some (some path)) =
        true := by
    decide +kernel
  obtain ⟨h, hh, hfacts⟩ := (Option.any_eq_true _ _).mp hrun
  obtain ⟨hfirst, hsecond, hentry₁, hentry₂⟩ := of_decide_eq_true hfacts
  obtain ⟨worker₁, hworker₁, hpair₁⟩ := Option.map_eq_some_iff.mp hfirst
  obtain ⟨worker₂, hworker₂, hpair₂⟩ := Option.map_eq_some_iff.mp hsecond
  obtain ⟨hown₁, hun₁⟩ := Prod.mk.inj hpair₁
  obtain ⟨hown₂, hun₂⟩ := Prod.mk.inj hpair₂
  obtain ⟨e₁, he₁, hpath₁⟩ := Option.map_eq_some_iff.mp hentry₁
  obtain ⟨e₂, he₂, hpath₂⟩ := Option.map_eq_some_iff.mp hentry₂
  have hsingle := ((hlaw .empty (.memory .new) reopenedTurn).last hh).1
  have hsame := hsingle 1 3 worker₁ worker₂ path hworker₁ hworker₂ hun₁ hun₂
    ⟨e₁, by rw [hown₁]; exact he₁, hpath₁⟩ ⟨e₂, by rw [hown₂]; exact he₂, hpath₂⟩
  rw [hown₁, hown₂] at hsame
  cases hsame

end DbClinic.Server
