import DbClinic.Server.AgentService

/-!
Where the receivers of a session's proxy channels are. A pair of receivers has
one owner at a time: the map of parked receivers or the forwarders of one
stream. A session is served as long as the pair its executor sends to is the
one that is parked or forwarded for it. A resume of a live session parks another pair
in its place, and a stream that goes away takes the pair with it.
-/

namespace DbClinic.Server

open DbClinic.Runtime Persistence Transition List Function

def Kernel.ownChannels (k : Kernel) (sid : String) : Option Nat :=
  (k.sessions sid).bind fun handle =>
    (k.entries handle.entry).map fun e => e.runtime.executor.channels

def Kernel.receiving (k : Kernel) (c : Nat) : Bool := (k.channels c).receiving

namespace Kernel

variable {k k' : Kernel}

theorem ownChannels_quiet (h : Quiet k k') (sid : String) :
    k'.ownChannels sid = k.ownChannels sid := by
  unfold ownChannels
  rw [h.sessions]
  cases k.sessions sid with
  | none => rfl
  | some handle =>
    have hmap := congrArg (Option.map Wiring.channels) (h.entries handle.entry)
    rw [Option.map_map, Option.map_map] at hmap
    exact hmap

theorem ownChannels_install (hk : Wired k) (key : String) (session : Session)
    (record : SessionRecord) (maxIterations : Option Nat) (channels msgCount : Nat)
    (stamps : SaveStamps) :
    (k.install key session record maxIterations channels msgCount stamps).ownChannels =
      Function.update k.ownChannels key (some channels) := by
  funext sid
  change (Function.update k.sessions key _ sid).bind (fun handle =>
    (Function.update k.entries k.next _ handle.entry).map _) = _
  rcases eq_or_ne sid key with rfl | hne
  · rw [update_self, update_self, Option.bind_some, update_self]
    rfl
  · rw [update_of_ne hne, update_of_ne hne]
    unfold ownChannels
    cases hsession : k.sessions sid with
    | none => rfl
    | some handle =>
      obtain ⟨⟨e, he⟩, -⟩ := hk.handle sid handle hsession
      have hlt := (hk.entry _ e he).1
      rw [Option.bind_some, Option.bind_some, update_of_ne (by omega)]

theorem ownChannels_runTurnStreaming (k : Kernel) (sid text : String) (ctx : Option String) :
    (k.runTurnStreaming sid text ctx).ownChannels = k.ownChannels := by
  unfold runTurnStreaming
  split
  · rfl
  rename_i handle hhandle
  funext sid'
  change (Function.update k.sessions sid _ sid').bind _ = _
  unfold ownChannels
  rcases eq_or_ne sid' sid with rfl | hne
  · rw [update_self, hhandle]
    rfl
  · rw [update_of_ne hne]

theorem ownChannels_remove (k : Kernel) (sid : String) :
    (k.remove sid).ownChannels = Function.update k.ownChannels sid none := by
  funext sid'
  change (Function.update k.sessions sid none sid').bind _ = _
  rcases eq_or_ne sid' sid with rfl | hne
  · rw [update_self, update_self]
    rfl
  · rw [update_of_ne hne, update_of_ne hne]
    rfl

theorem turn_receiving {w : Nat} {act : TurnAct} (h : k.turn w act = some k') :
    k'.receiving = k.receiving := by
  obtain ⟨worker, entry, v', -, -, heffect, rfl⟩ := turn_cases h
  funext c
  have hchannels : v'.entry.runtime.executor.channels = entry.runtime.executor.channels :=
    congrArg Wiring.channels heffect.wiring
  change (Function.update k.channels v'.entry.runtime.executor.channels v'.channels c).receiving =
    (k.channels c).receiving
  rw [hchannels]
  rcases eq_or_ne c entry.runtime.executor.channels with rfl | hne
  · rw [update_self]
    exact heffect.receiving
  · rw [update_of_ne hne]

theorem dropReceivers_receiving (k : Kernel) (c : Nat) :
    (k.dropReceivers c).receiving = Function.update k.receiving c false := by
  funext c'
  change (Function.update k.channels c _ c').receiving = _
  rcases eq_or_ne c' c with rfl | hne
  · rw [update_self, update_self]
  · rw [update_of_ne hne, update_of_ne hne]
    rfl

theorem aside_receiving {a : Action} (h : k.step a = some k') (ha : a.isAside = true)
    (hdrop : ∀ c, a ≠ .dropReceivers c) : k'.receiving = k.receiving := by
  cases a with
  | cancelCall sid =>
    cases h
    unfold cancelCall
    split <;> rfl
  | cancelStore c =>
    simp only [step, cancelStore] at h
    split at h <;> cases h
    rfl
  | cancelToken c =>
    simp only [step, cancelToken] at h
    split at h <;> cases h
    rfl
  | deliverCall sid iid payload =>
    cases h
    unfold deliverCall
    split <;> rfl
  | deliverTake d =>
    simp only [step, deliverTake] at h
    split at h
    · split at h <;> cases h <;> rfl
    · cases h
  | deliverSend d =>
    simp only [step, deliverSend] at h
    split at h <;> cases h
    rfl
  | receive c =>
    cases h
    funext c'
    change (Function.update k.channels c _ c').receiving = (k.channels c').receiving
    rcases eq_or_ne c' c with rfl | hne
    · rw [update_self]
    · rw [update_of_ne hne]
  | dropReceivers c => exact absurd rfl (hdrop c)
  | changeDisk disk =>
    cases h
    rfl
  | _ => cases ha

/-- `cancel_turn` changes flags, tokens and its own record. -/
theorem cancelTurn_aside (k : Kernel) (sid : String) :
    Aside k (AgentService.cancelTurn k sid) ∧
      (AgentService.cancelTurn k sid).receiving = k.receiving := by
  have hstep : ∀ {k k' : Kernel} {a : Action}, k.step a = some k' → a.isAside = true →
      (∀ c, a ≠ .dropReceivers c) → Aside k k' ∧ k'.receiving = k.receiving :=
    fun h ha hdrop => ⟨step_aside h ha, aside_receiving h ha hdrop⟩
  have hgetD : ∀ (k : Kernel) (a : Action), a.isAside = true → (∀ c, a ≠ .dropReceivers c) →
      Aside k ((k.step a).getD k) ∧ ((k.step a).getD k).receiving = k.receiving := by
    intro k a ha hdrop
    cases hs : k.step a with
    | none => exact ⟨⟨rfl, rfl, Nat.le_refl _, rfl, rfl⟩, rfl⟩
    | some k' => exact hstep hs ha hdrop
  have hcall := hstep (show k.step (.cancelCall sid) = _ from rfl) rfl (by simp)
  have hstore := hgetD (k.cancelCall sid) (.cancelStore k.next) rfl (by simp)
  have htoken := hgetD (((k.cancelCall sid).cancelStore k.next).getD (k.cancelCall sid))
    (.cancelToken k.next) rfl (by simp)
  exact ⟨(hcall.1.trans hstore.1).trans htoken.1, htoken.2.trans (hstore.2.trans hcall.2)⟩

end Kernel

/-- Each pair of receivers has one owner, and lives while its owner can use it. -/
structure Owned (s : AgentService) : Prop where
  wired : Wired s.kernel
  own : ∀ sid c, s.kernel.ownChannels sid = some c → c < s.nextChannels
  parked : ∀ sid c, s.pendingProxyReceivers sid = some c →
    c < s.nextChannels ∧ s.kernel.receiving c = true
  parkedOnce : ∀ sid sid' c, s.pendingProxyReceivers sid = some c →
    s.pendingProxyReceivers sid' = some c → sid = sid'
  forwarded : ∀ f ∈ s.forwarders, f.receivers < s.nextChannels ∧
    (s.connected f.stream = true → s.kernel.receiving f.receivers = true)
  known : ∀ f ∈ s.forwarders, (s.streams f.stream).isSome = true
  apart : ∀ f ∈ s.forwarders, ∀ sid, s.pendingProxyReceivers sid ≠ some f.receivers
  forwardedOnce : ∀ f ∈ s.forwarders, ∀ g ∈ s.forwarders, f.receivers = g.receivers → f = g
  fresh : ∀ c, s.nextChannels ≤ c → s.kernel.receiving c = true

open AgentService

variable {s : AgentService}

theorem owned_start (disk : SessionTree) (backend : SessionBackend) :
    Owned (start disk backend) where
  wired := Kernel.wired_start disk backend
  own := by simp [start, Kernel.ownChannels, Kernel.start]
  parked := by simp [start]
  parkedOnce := by simp [start]
  forwarded := by simp [start]
  known := by simp [start]
  apart := by simp [start]
  forwardedOnce := by simp [start]
  fresh := fun _ _ => rfl

variable {stream : Nat} {b : Bool} {kernel : Kernel} {sid : String} {s' : AgentService}
variable {a : ServiceAction}

theorem Owned.withKernel (h : Owned s) {next : Nat} (hnext : s.nextChannels ≤ next)
    (hwired : Wired kernel) (hown : ∀ sid c, kernel.ownChannels sid = some c → c < next)
    (hreceiving : kernel.receiving = s.kernel.receiving) :
    Owned { s with kernel, nextChannels := next } where
  wired := hwired
  own := hown
  parked := fun sid c hc => by
    obtain ⟨hlt, hlive⟩ := h.parked sid c hc
    refine ⟨Nat.lt_of_lt_of_le hlt hnext, ?_⟩
    change kernel.receiving c = true
    rw [hreceiving]
    exact hlive
  parkedOnce := h.parkedOnce
  forwarded := fun f hf => by
    obtain ⟨hlt, hlive⟩ := h.forwarded f hf
    refine ⟨Nat.lt_of_lt_of_le hlt hnext, fun hconn => ?_⟩
    change kernel.receiving f.receivers = true
    rw [hreceiving]
    exact hlive hconn
  known := h.known
  apart := h.apart
  forwardedOnce := h.forwardedOnce
  fresh := fun c hc => by
    change kernel.receiving c = true
    rw [hreceiving]
    exact h.fresh c (Nat.le_trans hnext hc)

theorem AgentService.park_ownChannels (s : AgentService) (sid : String) (receivers : Option Nat) :
    (s.park sid receivers).kernel.ownChannels = s.kernel.ownChannels := by
  unfold park
  dsimp only
  split <;> rfl

theorem AgentService.park_aside (s : AgentService) (sid : String) (receivers : Option Nat) :
    Aside s.kernel (s.park sid receivers).kernel := by
  unfold park
  dsimp only
  split <;> exact ⟨rfl, rfl, Nat.le_refl _, rfl, rfl⟩

theorem AgentService.park_receiving (s : AgentService) (sid : String)
    (receivers : Option Nat) {c : Nat} (hc : s.pendingProxyReceivers sid ≠ some c) :
    (s.park sid receivers).kernel.receiving c = s.kernel.receiving c := by
  unfold park
  dsimp only
  split
  · rfl
  · rename_i old hold
    have hne : c ≠ old := by
      rintro rfl
      exact hc hold
    rw [Kernel.dropReceivers_receiving, update_of_ne hne]

theorem Owned.park (h : Owned s) (sid : String) {receivers : Option Nat}
    (hnew : ∀ c, receivers = some c → c < s.nextChannels ∧ s.kernel.receiving c = true ∧
      (∀ sid', s.pendingProxyReceivers sid' ≠ some c) ∧ ∀ f ∈ s.forwarders, f.receivers ≠ c) :
    Owned (s.park sid receivers) where
  wired := (park_aside s sid receivers).quiet.wired h.wired
  own := by
    rw [park_ownChannels]
    exact h.own
  parked := fun sid' c hc => by
    rcases update_eq_some hc with ⟨-, hc⟩ | ⟨hne, hc⟩
    · obtain ⟨hlt, hlive, hunparked, -⟩ := hnew c hc
      exact ⟨hlt, (park_receiving s sid receivers (hunparked sid)).trans hlive⟩
    · obtain ⟨hlt, hlive⟩ := h.parked sid' c hc
      refine ⟨hlt, (park_receiving s sid receivers fun hold => ?_).trans hlive⟩
      exact hne (h.parkedOnce sid' sid c hc hold)
  parkedOnce := fun sid₁ sid₂ c h₁ h₂ => by
    rcases update_eq_some h₁ with ⟨hsid₁, hc₁⟩ | ⟨-, hc₁⟩
    · rcases update_eq_some h₂ with ⟨hsid₂, -⟩ | ⟨-, hc₂⟩
      · rw [hsid₁, hsid₂]
      · exact absurd hc₂ ((hnew c hc₁).2.2.1 sid₂)
    · rcases update_eq_some h₂ with ⟨-, hc₂⟩ | ⟨-, hc₂⟩
      · exact absurd hc₁ ((hnew c hc₂).2.2.1 sid₁)
      · exact h.parkedOnce sid₁ sid₂ c hc₁ hc₂
  forwarded := fun f hf => by
    obtain ⟨hlt, hlive⟩ := h.forwarded f hf
    exact ⟨hlt, fun hconn =>
      (park_receiving s sid receivers (h.apart f hf sid)).trans (hlive hconn)⟩
  known := h.known
  apart := fun f hf sid' hc => by
    rcases update_eq_some hc with ⟨-, hc⟩ | ⟨-, hc⟩
    · exact (hnew _ hc).2.2.2 f hf rfl
    · exact h.apart f hf sid' hc
  forwardedOnce := h.forwardedOnce
  fresh := fun c hc => by
    refine (park_receiving s sid receivers fun hold => ?_).trans (h.fresh c hc)
    have hlt := (h.parked sid c hold).1
    have hle : s.nextChannels ≤ c := hc
    omega

theorem AgentService.keepReceivers_ownChannels (s : AgentService) (kernel : Kernel)
    (sid : String) : (s.keepReceivers kernel sid).kernel.ownChannels = kernel.ownChannels :=
  park_ownChannels ..

theorem Owned.keepReceivers (h : Owned s) (sid : String) (hwired : Wired kernel)
    (hown : ∀ sid c, kernel.ownChannels sid = some c → c < s.nextChannels + 1)
    (hreceiving : kernel.receiving = s.kernel.receiving) :
    Owned (s.keepReceivers kernel sid) := by
  refine (h.withKernel (Nat.le_succ _) hwired hown hreceiving).park sid fun c hc => ?_
  cases hc
  refine ⟨Nat.lt_succ_self _, ?_, fun sid' hc => ?_, fun f hf hc => ?_⟩
  · change kernel.receiving s.nextChannels = true
    rw [hreceiving]
    exact h.fresh _ (Nat.le_refl _)
  · exact Nat.lt_irrefl _ (h.parked sid' _ hc).1
  · exact Nat.lt_irrefl _ (hc ▸ (h.forwarded f hf).1)

variable {key : String} {started : String → Bool} {h' : ServiceHistory}

theorem Owned.own_lt_built (h : Owned s) (hbuilt : kernel.ownChannels =
      Function.update s.kernel.ownChannels key (some s.nextChannels)) :
    ∀ sid c, kernel.ownChannels sid = some c → c < s.nextChannels + 1 := by
  intro sid c hc
  rw [hbuilt] at hc
  rcases update_eq_some hc with ⟨-, hc⟩ | ⟨-, hc⟩
  · cases hc
    exact Nat.lt_succ_self _
  · exact Nat.lt_succ_of_lt (h.own sid c hc)

theorem AgentService.create_ownChannels (h : Owned s) (req : CreateSessionRequest)
    (stamps : CommandStamps) :
    (s.kernel.create (s.createRequest req) stamps).1.ownChannels =
      Function.update s.kernel.ownChannels
        (s.kernel.create (s.createRequest req) stamps).2.1 (some s.nextChannels) :=
  Kernel.ownChannels_install (Kernel.withDisk_wired h.wired _) ..

theorem AgentService.resume_ownChannels (h : Owned s) {req : ResumeSessionRequest}
    (hnone : s.kernel.sessions req.sessionId = none) (stamps : CommandStamps) :
    (s.kernel.resume (s.resumeRequest req) stamps).1.ownChannels =
      Function.update s.kernel.ownChannels req.sessionId (some s.nextChannels) := by
  obtain ⟨record, hbuilt⟩ := @Kernel.resume_builds s.kernel (s.resumeRequest req) hnone stamps
  rw [hbuilt]
  exact Kernel.ownChannels_install (Kernel.withDisk_wired h.wired _) ..

theorem Kernel.resume_receiving (k : Kernel) (req : ResumeRequest) (stamps : CommandStamps) :
    (k.resume req stamps).1.receiving = k.receiving := by
  rcases hsession : k.sessions req.sessionId with - | handle
  · obtain ⟨record, hbuilt⟩ := Kernel.resume_builds hsession stamps
    rw [hbuilt]
    rfl
  · rw [Kernel.resume_live hsession stamps]

theorem AgentService.connected_withStream (s : AgentService) (stream : Nat) (b : Bool)
    (started : String → Bool) :
    { s with streams := Function.update s.streams stream (some ⟨b, started⟩) }.connected =
      Function.update s.connected stream b := by
  funext stream'
  unfold connected
  dsimp only
  rcases eq_or_ne stream' stream with rfl | hne
  · rw [update_self, update_self]
    rfl
  · rw [update_of_ne hne, update_of_ne hne]

theorem Owned.withStream (h : Owned s)
    (hstream : ∀ f ∈ s.forwarders, f.stream = stream → b = true → s.connected stream = true) :
    Owned { s with streams := Function.update s.streams stream (some ⟨b, started⟩) } where
  wired := h.wired
  own := h.own
  parked := h.parked
  parkedOnce := h.parkedOnce
  forwarded := fun f hf => by
    obtain ⟨hlt, hlive⟩ := h.forwarded f hf
    refine ⟨hlt, fun hconn => hlive ?_⟩
    rw [connected_withStream] at hconn
    by_cases hsame : f.stream = stream
    · rw [hsame, update_self] at hconn
      rw [hsame]
      exact hstream f hf hsame hconn
    · rwa [update_of_ne hsame] at hconn
  known := fun f hf => by
    change (Function.update s.streams stream _ f.stream).isSome = true
    by_cases hsame : f.stream = stream
    · rw [hsame, update_self]
      rfl
    · rw [update_of_ne hsame]
      exact h.known f hf
  apart := h.apart
  forwardedOnce := h.forwardedOnce
  fresh := h.fresh

def AgentService.handOver (s : AgentService) (stream : Nat) (sid : String) (receivers : Nat) :
    AgentService :=
  { s with
    pendingProxyReceivers := Function.update s.pendingProxyReceivers sid none
    forwarders := s.forwarders ++ [⟨sid, stream, receivers⟩] }

theorem Owned.handOver (h : Owned s) {receivers : Nat}
    (hparked : s.pendingProxyReceivers sid = some receivers)
    (hknown : (s.streams stream).isSome = true) : Owned (s.handOver stream sid receivers) where
  wired := h.wired
  own := h.own
  parked := fun sid' c hc => by
    rcases update_eq_some hc with ⟨-, hc⟩ | ⟨-, hc⟩
    · cases hc
    · exact h.parked sid' c hc
  parkedOnce := fun sid₁ sid₂ c h₁ h₂ => by
    rcases update_eq_some h₁ with ⟨-, h₁⟩ | ⟨-, h₁⟩
    · cases h₁
    · rcases update_eq_some h₂ with ⟨-, h₂⟩ | ⟨-, h₂⟩
      · cases h₂
      · exact h.parkedOnce sid₁ sid₂ c h₁ h₂
  forwarded := fun f hf => by
    rcases mem_append.mp hf with hf | hf
    · exact h.forwarded f hf
    · obtain ⟨hlt, hlive⟩ := h.parked sid receivers hparked
      rw [mem_singleton.mp hf]
      exact ⟨hlt, fun _ => hlive⟩
  known := fun f hf => by
    rcases mem_append.mp hf with hf | hf
    · exact h.known f hf
    · rw [mem_singleton.mp hf]
      exact hknown
  apart := fun f hf sid' hc => by
    rcases update_eq_some hc with ⟨-, hc⟩ | ⟨hne, hc⟩
    · cases hc
    · rcases mem_append.mp hf with hf | hf
      · exact h.apart f hf sid' hc
      · rw [mem_singleton.mp hf] at hc
        exact hne (h.parkedOnce sid' sid receivers hc hparked)
  forwardedOnce := fun f hf g hg hsame => by
    rcases mem_append.mp hf with hf | hf
    · rcases mem_append.mp hg with hg | hg
      · exact h.forwardedOnce f hf g hg hsame
      · rw [mem_singleton.mp hg] at hsame
        exact absurd (hparked.trans (congrArg some hsame.symm)) (h.apart f hf sid)
    · rcases mem_append.mp hg with hg | hg
      · rw [mem_singleton.mp hf] at hsame
        exact absurd (hparked.trans (congrArg some hsame)) (h.apart g hg sid)
      · rw [mem_singleton.mp hf, mem_singleton.mp hg]
  fresh := h.fresh

theorem AgentService.chatInput_cases (h : s.chatInput stream sid = some s') :
    s.connected stream = true ∧ (s' = s ∨ ∃ started receivers,
      s.pendingProxyReceivers sid = some receivers ∧
      s' = { s.handOver stream sid receivers with
        streams := Function.update s.streams stream (some ⟨true, started⟩) }) := by
  unfold chatInput at h
  split at h
  · rename_i started hstream
    refine ⟨by simp [connected, hstream], ?_⟩
    split at h
    · cases h
      exact .inl rfl
    · split at h
      · cases h
        exact .inl rfl
      · rename_i receivers hparked
        cases h
        exact .inr ⟨_, receivers, hparked, rfl⟩
  · cases h

/-- What a message does to the owners: the receivers parked for its session may
go to the stream it came on. -/
structure Heard (s : AgentService) (stream : Nat) (sid : String) (s' : AgentService) : Prop where
  kernel : s'.kernel = s.kernel
  connected : s'.connected = s.connected
  open_ : s.connected stream = true
  parkedOf : ∀ sid', sid' ≠ sid → s'.pendingProxyReceivers sid' = s.pendingProxyReceivers sid'
  parked : ∀ c, s.pendingProxyReceivers sid = some c →
    s'.pendingProxyReceivers sid = some c ∨ ⟨sid, stream, c⟩ ∈ s'.forwarders
  keeps : ∀ f ∈ s.forwarders, f ∈ s'.forwarders
  adds : ∀ f ∈ s'.forwarders, f ∈ s.forwarders ∨ ∃ c, f = ⟨sid, stream, c⟩ ∧
    s.pendingProxyReceivers sid = some c
  leaves : ∀ c, s'.pendingProxyReceivers sid = some c → s.pendingProxyReceivers sid = some c
  streams : ∀ stream', (s.streams stream').isSome = true → (s'.streams stream').isSome = true

theorem AgentService.chatInput_heard (h : s.chatInput stream sid = some s') :
    Heard s stream sid s' := by
  obtain ⟨hopen, rfl | ⟨started, receivers, hparked, rfl⟩⟩ := chatInput_cases h
  · exact ⟨rfl, rfl, hopen, fun _ _ => rfl, fun _ hc => .inl hc, fun _ hf => hf,
      fun _ hf => .inl hf, fun _ hc => hc, fun _ hs => hs⟩
  refine ⟨rfl, ?_, hopen, fun _ hne => update_of_ne hne _ _, fun c hc => ?_,
    fun f hf => mem_append_left _ hf, fun f hf => ?_, fun c hc => ?_, fun stream' hs => ?_⟩
  · refine (connected_withStream (s.handOver stream sid receivers) stream true started).trans ?_
    exact update_eq_self_iff.mpr hopen.symm
  · right
    rw [hparked] at hc
    cases hc
    exact mem_append_right _ (mem_singleton.mpr rfl)
  · rcases mem_append.mp hf with hf | hf
    · exact .inl hf
    · exact .inr ⟨receivers, mem_singleton.mp hf, hparked⟩
  · rcases update_eq_some hc with ⟨-, hc⟩ | ⟨hne, -⟩
    · cases hc
    · exact absurd rfl hne
  · change (Function.update s.streams stream _ stream').isSome = true
    rcases eq_or_ne stream' stream with rfl | hne
    · rw [update_self]
      rfl
    · rwa [update_of_ne hne]

theorem AgentService.chatDisconnect_cases (h : s.chatDisconnect stream = some s') :
    ∃ started, s.streams stream = some ⟨true, started⟩ ∧
      s' = { s with streams := Function.update s.streams stream (some ⟨false, started⟩) } := by
  unfold chatDisconnect at h
  split at h
  · cases h
    exact ⟨_, ‹_›, rfl⟩
  · cases h

theorem AgentService.inside_cases {a : Action} (hruns : s.runsInside a = true)
    (hstep : s.kernel.step a = some kernel) :
    kernel.ownChannels = s.kernel.ownChannels ∧
      (kernel.receiving = s.kernel.receiving ∨ ∃ f ∈ s.forwarders,
        s.connected f.stream = false ∧
        kernel.receiving = Function.update s.kernel.receiving f.receivers false) := by
  cases a using Action.byKind with
  | create _ _ => cases hruns
  | resume _ _ => cases hruns
  | remove _ => cases hruns
  | restart => cases hruns
  | runTurnStreaming sid text ctx =>
    cases hstep
    refine ⟨Kernel.ownChannels_runTurnStreaming s.kernel sid text ctx, .inl ?_⟩
    unfold Kernel.runTurnStreaming
    split <;> rfl
  | turn w act =>
    exact ⟨funext (Kernel.ownChannels_quiet (Kernel.turn_quiet hstep)),
      .inl (Kernel.turn_receiving hstep)⟩
  | aside a haside =>
    refine ⟨funext (Kernel.ownChannels_quiet (Kernel.step_aside hstep haside).quiet), ?_⟩
    by_cases hdrop : ∃ c, a = .dropReceivers c
    · obtain ⟨c, rfl⟩ := hdrop
      cases hstep
      obtain ⟨f, hf, hboth⟩ := any_eq_true.mp hruns
      rw [Bool.and_eq_true, beq_iff_eq, Bool.not_eq_true'] at hboth
      obtain ⟨rfl, hgone⟩ := hboth
      exact .inr ⟨f, hf, hgone, Kernel.dropReceivers_receiving s.kernel f.receivers⟩
    · exact .inl (Kernel.aside_receiving hstep haside fun c hc => hdrop ⟨c, hc⟩)

theorem Owned.drop (h : Owned s) (hwired : Wired kernel)
    (hown : kernel.ownChannels = s.kernel.ownChannels) {f : Forwarders} (hf : f ∈ s.forwarders)
    (hgone : s.connected f.stream = false)
    (hreceiving : kernel.receiving = Function.update s.kernel.receiving f.receivers false) :
    Owned { s with kernel } where
  wired := hwired
  own := fun sid c hc => h.own sid c (hown ▸ hc)
  parked := fun sid c hc => by
    obtain ⟨hlt, hlive⟩ := h.parked sid c hc
    refine ⟨hlt, ?_⟩
    have hne : c ≠ f.receivers := by
      rintro rfl
      exact h.apart f hf sid hc
    change kernel.receiving c = true
    rw [hreceiving, update_of_ne hne]
    exact hlive
  parkedOnce := h.parkedOnce
  forwarded := fun g hg => by
    obtain ⟨hlt, hlive⟩ := h.forwarded g hg
    refine ⟨hlt, fun hconn => ?_⟩
    have hne : g.receivers ≠ f.receivers := by
      intro hsame
      rw [h.forwardedOnce g hg f hf hsame] at hconn
      exact Bool.false_ne_true (hgone.symm.trans hconn)
    change kernel.receiving g.receivers = true
    rw [hreceiving, update_of_ne hne]
    exact hlive hconn
  known := h.known
  apart := h.apart
  forwardedOnce := h.forwardedOnce
  fresh := fun c hc => by
    have hne : c ≠ f.receivers := by
      rintro rfl
      have hlt := (h.forwarded f hf).1
      have hle : s.nextChannels ≤ f.receivers := hc
      omega
    change kernel.receiving c = true
    rw [hreceiving, update_of_ne hne]
    exact h.fresh c hc

theorem AgentService.closeSession_kernel (s : AgentService) (sid : String) :
    (s.closeSession sid).kernel.ownChannels = Function.update s.kernel.ownChannels sid none ∧
      (s.closeSession sid).kernel.receiving = (s.park sid none).kernel.receiving := by
  obtain ⟨haside, hreceiving⟩ := Kernel.cancelTurn_aside (s.park sid none).kernel sid
  constructor
  · change ((cancelTurn (s.park sid none).kernel sid).remove sid).ownChannels = _
    rw [Kernel.ownChannels_remove, funext (Kernel.ownChannels_quiet haside.quiet),
      park_ownChannels]
  · exact hreceiving

theorem Owned.step (h : Owned s) (hstep : s.step a = some s') : Owned s' := by
  cases a with
  | createSession req stamps =>
    cases hstep
    exact h.keepReceivers _ (Kernel.install_wired (Kernel.withDisk_wired h.wired _) ..)
      (h.own_lt_built (create_ownChannels h req stamps)) rfl
  | resumeSession req stamps =>
    cases hstep
    unfold resumeSession
    split
    · exact h
    · refine h.keepReceivers _ (Kernel.resume_wired h.wired _ stamps) ?_
        (Kernel.resume_receiving ..)
      rcases hsession : s.kernel.sessions req.sessionId with - | handle
      · exact h.own_lt_built (resume_ownChannels h hsession stamps)
      · rw [@Kernel.resume_live s.kernel (s.resumeRequest req) handle hsession stamps]
        exact fun sid c hc => Nat.lt_succ_of_lt (h.own sid c hc)
  | closeSession sid =>
    cases hstep
    obtain ⟨hown, hreceiving⟩ := closeSession_kernel s sid
    have hpark : Owned (s.park sid none) := h.park sid (by simp)
    have haside := (Kernel.cancelTurn_aside (s.park sid none).kernel sid).1
    refine hpark.withKernel (Nat.le_refl _)
      (Kernel.remove_wired (haside.quiet.wired hpark.wired) sid) (fun sid' c hc => ?_) hreceiving
    have hc : (s.closeSession sid).kernel.ownChannels sid' = some c := hc
    rw [hown] at hc
    rcases update_eq_some hc with ⟨-, hc⟩ | ⟨-, hc⟩
    · cases hc
    · exact h.own sid' c hc
  | chatOpen stream =>
    simp only [AgentService.step] at hstep
    split at hstep <;> cases hstep
    rename_i hnone
    refine h.withStream fun f hf hsame _ => ?_
    have hknown := h.known f hf
    rw [hsame, hnone] at hknown
    cases hknown
  | chatInput stream sid =>
    obtain ⟨hconn, rfl | ⟨started, receivers, hparked, rfl⟩⟩ := chatInput_cases hstep
    · exact h
    · have hknown : (s.streams stream).isSome = true := by
        unfold connected at hconn
        cases hstream : s.streams stream with
        | none => simp [hstream] at hconn
        | some _ => rfl
      exact (h.handOver hparked hknown).withStream fun _ _ _ _ => hconn
  | chatDisconnect stream =>
    obtain ⟨started, -, rfl⟩ := chatDisconnect_cases hstep
    exact h.withStream fun _ _ _ hb => by cases hb
  | kernel a =>
    simp only [AgentService.step] at hstep
    split at hstep
    · rename_i hruns
      obtain ⟨kernel, hkernel, rfl⟩ := Option.map_eq_some_iff.mp hstep
      obtain ⟨hown, hreceiving | ⟨f, hf, hgone, hreceiving⟩⟩ := inside_cases hruns hkernel
      · exact h.withKernel (Nat.le_refl _) (Kernel.step_wired hkernel h.wired)
          (fun sid c hc => h.own sid c (hown ▸ hc)) hreceiving
      · exact h.drop (Kernel.step_wired hkernel h.wired) hown hf hgone hreceiving
    · cases hstep

/-- The service, the streams on which a session has had messages since it was
built, and whether a resume of a live session has replaced its own receivers
where they were parked. -/
structure ServiceHistory where
  service : AgentService
  opened : Nat → String → Bool
  replaced : Bool

namespace ServiceHistory

def start (disk : SessionTree) (backend : SessionBackend) : ServiceHistory :=
  ⟨.start disk backend, fun _ _ => false, false⟩

def forget (opened : Nat → String → Bool) (sid : String) : Nat → String → Bool :=
  fun stream => Function.update (opened stream) sid false

def mark (opened : Nat → String → Bool) (stream : Nat) (sid : String) : Nat → String → Bool :=
  Function.update opened stream (Function.update (opened stream) sid true)

variable {sid' : String}

theorem mark_eq_true {opened : Nat → String → Bool} {stream' : Nat} :
    mark opened stream sid stream' sid' = true ↔
      (stream' = stream ∧ sid' = sid) ∨ opened stream' sid' = true := by
  unfold mark
  rcases eq_or_ne stream' stream with rfl | hstream
  · rw [update_self]
    rcases eq_or_ne sid' sid with rfl | hsid
    · simp
    · simp [hsid]
  · simp [hstream]

theorem mark_of_ne (opened : Nat → String → Bool) (stream stream' : Nat) (hne : sid' ≠ sid) :
    mark opened stream sid stream' sid' = opened stream' sid' := by
  rw [Bool.eq_iff_iff, mark_eq_true]
  simp [hne]

def openedAfter (h : ServiceHistory) : ServiceAction → Nat → String → Bool
  | .createSession req stamps => forget h.opened (h.service.createSession req stamps).2.1
  | .resumeSession req _ =>
    if req.dataDir = "" ∨ (h.service.kernel.sessions req.sessionId).isSome then h.opened
    else forget h.opened req.sessionId
  | .chatInput stream sid => mark h.opened stream sid
  | _ => h.opened

def replaces (h : ServiceHistory) : ServiceAction → Bool
  | .resumeSession req _ =>
    req.dataDir ≠ "" ∧ (h.service.kernel.sessions req.sessionId).isSome ∧
      h.service.pendingProxyReceivers req.sessionId =
        h.service.kernel.ownChannels req.sessionId
  | _ => false

def step (h : ServiceHistory) (a : ServiceAction) : Option ServiceHistory :=
  (h.service.step a).map fun service => ⟨service, h.openedAfter a, h.replaced || h.replaces a⟩

/-- The chat stream of a session is open, or not opened yet. -/
def Available (h : ServiceHistory) (sid : String) : Prop :=
  (∀ stream, h.opened stream sid = false) ∨
    ∃ stream, h.service.connected stream = true ∧ h.opened stream sid = true

/-- The receivers `c` are parked for the session, or forwarded to a stream that
is open. -/
def Held (h : ServiceHistory) (sid : String) (c : Nat) : Prop :=
  h.service.pendingProxyReceivers sid = some c ∨ ∃ f ∈ h.service.forwarders,
    f.sessionId = sid ∧ f.receivers = c ∧ h.service.connected f.stream = true

/-- What is promised: the receivers of each live session's own executor are
alive and held for it, and no resume of a live session replaces them. -/
def ReceiversHeld (h : ServiceHistory) : Prop :=
  (∀ sid c, h.service.kernel.ownChannels sid = some c → h.Available sid →
    h.Held sid c ∧ h.service.kernel.receiving c = true) ∧ h.replaced = false

/-- The calls after which the promise still stands. A live session is not
resumed while its receivers are parked, any other resume finds its id in the
file, a session is not heard on a stream after the one its receivers are
forwarded to is gone, and that one does not go first while the session has
another. -/
def CallOk (h : ServiceHistory) : ServiceAction → Prop
  | .resumeSession req stamps => req.dataDir ≠ "" →
      ((h.service.kernel.sessions req.sessionId).isSome →
        h.service.pendingProxyReceivers req.sessionId ≠
          h.service.kernel.ownChannels req.sessionId) ∧
      (h.service.kernel.sessions req.sessionId = none →
        FileIdMatches h.service.kernel.disk (h.service.resumeRequest req) stamps)
  | .chatInput _ sid => ∀ f ∈ h.service.forwarders,
      h.service.kernel.ownChannels sid = some f.receivers → h.service.connected f.stream = true
  | .chatDisconnect stream => ∀ f ∈ h.service.forwarders, f.stream = stream →
      h.service.kernel.ownChannels f.sessionId = some f.receivers →
      ∀ other, other ≠ stream → h.service.connected other = true →
        h.opened other f.sessionId = false
  | _ => True

end ServiceHistory

open ServiceHistory

structure ReceiversInv (h : ServiceHistory) : Prop where
  owned : Owned h.service
  located : ∀ sid c, h.service.kernel.ownChannels sid = some c →
    h.service.pendingProxyReceivers sid = some c ∨
      ∃ f ∈ h.service.forwarders, f.sessionId = sid ∧ f.receivers = c
  served : ∀ sid c, h.service.kernel.ownChannels sid = some c → h.Available sid → h.Held sid c
  openedKnown : ∀ stream sid, h.opened stream sid = true → (h.service.streams stream).isSome = true
  forwardedOpened : ∀ f ∈ h.service.forwarders,
    h.service.kernel.ownChannels f.sessionId = some f.receivers →
    h.opened f.stream f.sessionId = true

variable {h : ServiceHistory}

theorem receiversInv_start (disk : SessionTree) (backend : SessionBackend) :
    ReceiversInv (.start disk backend) where
  owned := owned_start disk backend
  located := fun _ _ hown => by cases hown
  served := fun _ _ hown => by cases hown
  openedKnown := fun _ _ hopened => by cases hopened
  forwardedOpened := fun f hf => by cases hf

theorem ReceiversInv.receiversHeld (hinv : ReceiversInv h) (hkept : h.replaced = false) :
    ReceiversHeld h := by
  refine ⟨fun sid c hown havailable => ?_, hkept⟩
  have hheld := hinv.served sid c hown havailable
  refine ⟨hheld, ?_⟩
  rcases hheld with hparked | ⟨f, hf, -, rfl, hconn⟩
  · exact (hinv.owned.parked sid c hparked).2
  · exact (hinv.owned.forwarded f hf).2 hconn

theorem ReceiversInv.build (hinv : ReceiversInv h)
    (howned : Owned (h.service.keepReceivers kernel key)) (hbuilt : kernel.ownChannels =
      Function.update h.service.kernel.ownChannels key (some h.service.nextChannels)) :
    ReceiversInv ⟨h.service.keepReceivers kernel key, forget h.opened key, b⟩ := by
  have hown : (h.service.keepReceivers kernel key).kernel.ownChannels =
      Function.update h.service.kernel.ownChannels key (some h.service.nextChannels) :=
    (keepReceivers_ownChannels ..).trans hbuilt
  have hforget : ∀ {stream : Nat} {sid : String}, sid ≠ key →
      forget h.opened key stream sid = h.opened stream sid :=
    fun hne => update_of_ne hne _ _
  refine ⟨howned, fun sid c hc => ?_, fun sid c hc havailable => ?_,
    fun stream sid hopened => ?_, fun f hf hc => ?_⟩
  · have hc := (congrFun hown sid).symm.trans hc
    rcases update_eq_some hc with ⟨rfl, hnew⟩ | ⟨hne, hc⟩
    · exact .inl ((update_self ..).trans hnew)
    · rcases hinv.located sid c hc with hparked | hforwarded
      · exact .inl ((update_of_ne hne _ _).trans hparked)
      · exact .inr hforwarded
  · have hc := (congrFun hown sid).symm.trans hc
    rcases update_eq_some hc with ⟨rfl, hnew⟩ | ⟨hne, hc⟩
    · exact .inl ((update_self ..).trans hnew)
    · have hold : h.Available sid := by
        rcases havailable with hunopened | ⟨stream, hconn, hopened⟩
        · exact .inl fun stream => (hforget hne).symm.trans (hunopened stream)
        · exact .inr ⟨stream, hconn, (hforget hne).symm.trans hopened⟩
      rcases hinv.served sid c hc hold with hparked | hforwarded
      · exact .inl ((update_of_ne hne _ _).trans hparked)
      · exact .inr hforwarded
  · rcases eq_or_ne sid key with rfl | hne
    · exact absurd ((update_self ..).symm.trans hopened) (by simp)
    · exact hinv.openedKnown stream sid ((hforget hne).symm.trans hopened)
  · have hc := (congrFun hown f.sessionId).symm.trans hc
    rcases update_eq_some hc with ⟨-, hc⟩ | ⟨hne, hc⟩
    · have hlt := (hinv.owned.forwarded f hf).1
      rw [← Option.some.inj hc] at hlt
      exact absurd hlt (Nat.lt_irrefl _)
    · exact (hforget hne).trans (hinv.forwardedOpened f hf hc)

theorem ReceiversInv.resumeLive (hinv : ReceiversInv h)
    (howned : Owned (h.service.keepReceivers h.service.kernel sid))
    (hother : h.service.pendingProxyReceivers sid ≠ h.service.kernel.ownChannels sid) :
    ReceiversInv ⟨h.service.keepReceivers h.service.kernel sid, h.opened, b⟩ := by
  have hown : (h.service.keepReceivers h.service.kernel sid).kernel.ownChannels =
      h.service.kernel.ownChannels := keepReceivers_ownChannels ..
  have hparked : ∀ {sid' c}, h.service.kernel.ownChannels sid' = some c →
      h.service.pendingProxyReceivers sid' = some c →
      (h.service.keepReceivers h.service.kernel sid).pendingProxyReceivers sid' = some c := by
    intro sid' c hc hparked
    have hne : sid' ≠ sid := by
      rintro rfl
      exact hother (hparked.trans hc.symm)
    exact (update_of_ne hne _ _).trans hparked
  refine ⟨howned, fun sid' c hc => ?_, fun sid' c hc havailable => ?_, hinv.openedKnown,
    fun f hf hc => ?_⟩
  · have hc := (congrFun hown sid').symm.trans hc
    exact (hinv.located sid' c hc).imp_left (hparked hc)
  · have hc := (congrFun hown sid').symm.trans hc
    exact (hinv.served sid' c hc havailable).imp_left (hparked hc)
  · exact hinv.forwardedOpened f hf ((congrFun hown f.sessionId).symm.trans hc)

theorem ReceiversInv.close (hinv : ReceiversInv h) (sid : String)
    (howned : Owned (h.service.closeSession sid)) :
    ReceiversInv ⟨h.service.closeSession sid, h.opened, b⟩ := by
  have hown := (closeSession_kernel h.service sid).1
  have hold : ∀ {sid' c}, (h.service.closeSession sid).kernel.ownChannels sid' = some c →
      sid' ≠ sid ∧ h.service.kernel.ownChannels sid' = some c := by
    intro sid' c hc
    rw [hown] at hc
    rcases update_eq_some hc with ⟨-, hc⟩ | hboth
    · cases hc
    · exact hboth
  refine ⟨howned, fun sid' c hc => ?_, fun sid' c hc havailable => ?_, hinv.openedKnown,
    fun f hf hc => hinv.forwardedOpened f hf (hold hc).2⟩
  · obtain ⟨hne, hc⟩ := hold hc
    exact (hinv.located sid' c hc).imp_left (update_of_ne hne _ _).trans
  · obtain ⟨hne, hc⟩ := hold hc
    exact (hinv.served sid' c hc havailable).imp_left (update_of_ne hne _ _).trans

theorem ReceiversInv.input (hinv : ReceiversInv h) (howned : Owned s')
    (hheard : Heard h.service stream sid s') (hok : h.CallOk (.chatInput stream sid)) :
    ReceiversInv ⟨s', mark h.opened stream sid, b⟩ := by
  have hown : s'.kernel.ownChannels = h.service.kernel.ownChannels := by rw [hheard.kernel]
  refine ⟨howned, fun sid' c hc => ?_, fun sid' c hc havailable => ?_,
    fun stream' sid' hopened => ?_, fun f hf hc => ?_⟩
  · have hc := (congrFun hown sid').symm.trans hc
    rcases hinv.located sid' c hc with hparked | ⟨f, hf, hsid, hreceivers⟩
    · rcases eq_or_ne sid' sid with rfl | hne
      · exact (hheard.parked c hparked).imp_right fun hf => ⟨_, hf, rfl, rfl⟩
      · exact .inl ((hheard.parkedOf sid' hne).trans hparked)
    · exact .inr ⟨f, hheard.keeps f hf, hsid, hreceivers⟩
  · have hold := (congrFun hown sid').symm.trans hc
    have hconn : ∀ {k}, h.service.connected k = true → s'.connected k = true :=
      fun hk => (congrFun hheard.connected _).trans hk
    rcases eq_or_ne sid' sid with rfl | hne
    · rcases hinv.located sid' c hold with hparked | ⟨f, hf, hsid, rfl⟩
      · rcases hheard.parked c hparked with hparked | hf
        · exact .inl hparked
        · exact .inr ⟨_, hf, rfl, rfl, hconn hheard.open_⟩
      · exact .inr ⟨f, hheard.keeps f hf, hsid, rfl, hconn (hok f hf hold)⟩
    · have havailable : h.Available sid' := by
        rcases havailable with hunopened | ⟨k, hk, hopened⟩
        · exact .inl fun k => (mark_of_ne _ _ _ hne).symm.trans (hunopened k)
        · exact .inr ⟨k, (congrFun hheard.connected k).symm.trans hk,
            (mark_of_ne _ _ _ hne).symm.trans hopened⟩
      rcases hinv.served sid' c hold havailable with hparked | ⟨f, hf, hsid, hreceivers, hk⟩
      · exact .inl ((hheard.parkedOf sid' hne).trans hparked)
      · exact .inr ⟨f, hheard.keeps f hf, hsid, hreceivers, hconn hk⟩
  · rcases mark_eq_true.mp hopened with ⟨rfl, -⟩ | hopened
    · refine hheard.streams _ ?_
      have hopen := hheard.open_
      unfold connected at hopen
      cases hstream : h.service.streams stream' with
      | none => simp [hstream] at hopen
      | some _ => rfl
    · exact hheard.streams _ (hinv.openedKnown stream' sid' hopened)
  · rcases hheard.adds f hf with hf | ⟨c, rfl, -⟩
    · exact mark_eq_true.mpr (.inr
        (hinv.forwardedOpened f hf ((congrFun hown f.sessionId).symm.trans hc)))
    · exact mark_eq_true.mpr (.inl ⟨rfl, rfl⟩)

theorem ReceiversInv.openStream (hinv : ReceiversInv h) (hnone : h.service.streams stream = none)
    (howned : Owned { h.service with
      streams := Function.update h.service.streams stream (some ⟨true, fun _ => false⟩) }) :
    ReceiversInv ⟨{ h.service with
      streams := Function.update h.service.streams stream (some ⟨true, fun _ => false⟩) },
      h.opened, b⟩ := by
  have hstreams : ∀ k, (h.service.streams k).isSome = true → k ≠ stream := by
    rintro k hk rfl
    rw [hnone] at hk
    cases hk
  have hconn : ∀ k, k ≠ stream → { h.service with
      streams := Function.update h.service.streams stream
        (some ⟨true, fun _ => false⟩) }.connected k = h.service.connected k := by
    intro k hk
    rw [connected_withStream, update_of_ne hk]
  refine ⟨howned, hinv.located, fun sid c hc havailable => ?_, fun k sid hopened => ?_,
    hinv.forwardedOpened⟩
  · have hold : h.Available sid := by
      rcases havailable with hunopened | ⟨k, hk, hopened⟩
      · exact .inl hunopened
      · have hne := hstreams k (hinv.openedKnown k sid hopened)
        exact .inr ⟨k, (hconn k hne).symm.trans hk, hopened⟩
    refine (hinv.served sid c hc hold).imp_right ?_
    rintro ⟨f, hf, hsid, hreceivers, hk⟩
    have hne := hstreams f.stream (hinv.owned.known f hf)
    exact ⟨f, hf, hsid, hreceivers, (hconn f.stream hne).trans hk⟩
  · have hknown := hinv.openedKnown k sid hopened
    change (Function.update h.service.streams stream _ k).isSome = true
    rwa [update_of_ne (hstreams k hknown)]

theorem ReceiversInv.disconnect (hinv : ReceiversInv h) (hok : h.CallOk (.chatDisconnect stream))
    (howned : Owned { h.service with
      streams := Function.update h.service.streams stream (some ⟨false, started⟩) }) :
    ReceiversInv ⟨{ h.service with
      streams := Function.update h.service.streams stream (some ⟨false, started⟩) },
      h.opened, b⟩ := by
  have hconn := connected_withStream h.service stream false started
  refine ⟨howned, hinv.located, fun sid c hc havailable => ?_, fun k sid hopened => ?_,
    hinv.forwardedOpened⟩
  · rcases havailable with hunopened | ⟨k, hk, hopened⟩
    · rcases hinv.served sid c hc (.inl hunopened) with hparked | ⟨f, hf, rfl, rfl, -⟩
      · exact .inl hparked
      · have hopened := hinv.forwardedOpened f hf hc
        exact absurd ((hunopened f.stream).symm.trans hopened) (by simp)
    · rw [hconn] at hk
      have hne : k ≠ stream := by
        rintro rfl
        rw [update_self] at hk
        cases hk
      rw [update_of_ne hne] at hk
      rcases hinv.served sid c hc (.inr ⟨k, hk, hopened⟩) with hparked | ⟨f, hf, rfl, rfl, hf'⟩
      · exact .inl hparked
      · refine .inr ⟨f, hf, rfl, rfl, ?_⟩
        by_cases hsame : f.stream = stream
        · have hunopened := hok f hf hsame hc k hne hk
          exact absurd (hunopened.symm.trans hopened) (by simp)
        · rw [hconn, update_of_ne hsame]
          exact hf'
  · change (Function.update h.service.streams stream _ k).isSome = true
    rcases eq_or_ne k stream with rfl | hne
    · rw [update_self]
      rfl
    · rw [update_of_ne hne]
      exact hinv.openedKnown k sid hopened

theorem ReceiversInv.step (hinv : ReceiversInv h) (hkept : h.replaced = false)
    (hstep : h.step a = some h') (hok : h.CallOk a) :
    ReceiversInv h' ∧ h'.replaced = false := by
  obtain ⟨s', hs', rfl⟩ := Option.map_eq_some_iff.mp hstep
  have howned := hinv.owned.step hs'
  have hreplaces : h.replaces a = false := by
    cases a with
    | resumeSession req stamps =>
      rw [Bool.eq_false_iff]
      intro hreplaces
      obtain ⟨hdir, hlive, hsame⟩ := of_decide_eq_true hreplaces
      exact (hok hdir).1 hlive hsame
    | _ => rfl
  refine ⟨?_, by rw [hkept, hreplaces]; rfl⟩
  cases a with
  | createSession req stamps =>
    cases hs'
    exact hinv.build howned (create_ownChannels hinv.owned req stamps)
  | resumeSession req stamps =>
    by_cases hdir : req.dataDir = ""
    · simp only [AgentService.step, resumeSession, if_pos hdir, Option.some.injEq] at hs'
      subst hs'
      simp only [openedAfter, hdir, true_or, if_true]
      exact ⟨howned, hinv.located, hinv.served, hinv.openedKnown, hinv.forwardedOpened⟩
    · obtain ⟨hother, hid⟩ := hok hdir
      simp only [AgentService.step, resumeSession, if_neg hdir, Option.some.injEq] at hs'
      subst hs'
      rcases hsession : h.service.kernel.sessions req.sessionId with - | handle
      · have hreply : (h.service.kernel.resume (h.service.resumeRequest req) stamps).2.1 =
            req.sessionId := (Kernel.resume_reply hsession stamps).trans
          ((resumedSession_id_iff ..).mpr (hid hsession))
        simp only [openedAfter, hdir, hsession, Option.isSome_none, Bool.false_eq_true, or_self,
          if_false]
        rw [hreply] at howned ⊢
        exact hinv.build howned (resume_ownChannels hinv.owned hsession stamps)
      · have hlive := @Kernel.resume_live h.service.kernel (h.service.resumeRequest req)
          handle hsession stamps
        have hreply := @Kernel.resume_live_reply h.service.kernel (h.service.resumeRequest req)
          handle hsession stamps
        rw [hsession] at hother
        simp only [openedAfter, hsession, Option.isSome_some, or_true, if_true]
        rw [hlive, hreply] at howned ⊢
        exact hinv.resumeLive howned (hother rfl)
  | closeSession sid =>
    cases hs'
    exact hinv.close sid howned
  | chatOpen stream =>
    simp only [AgentService.step] at hs'
    split at hs' <;> cases hs'
    exact hinv.openStream ‹_› howned
  | chatInput stream sid => exact hinv.input howned (chatInput_heard hs') hok
  | chatDisconnect stream =>
    obtain ⟨started, -, rfl⟩ := chatDisconnect_cases hs'
    exact hinv.disconnect hok howned
  | kernel a =>
    simp only [AgentService.step] at hs'
    split at hs'
    · rename_i hruns
      obtain ⟨kernel, hkernel, rfl⟩ := Option.map_eq_some_iff.mp hs'
      have hown := (inside_cases hruns hkernel).1
      exact ⟨howned, fun sid c hc => hinv.located sid c ((congrFun hown sid).symm.trans hc),
        fun sid c hc => hinv.served sid c ((congrFun hown sid).symm.trans hc),
        hinv.openedKnown,
        fun f hf hc => hinv.forwardedOpened f hf ((congrFun hown f.sessionId).symm.trans hc)⟩
    · cases hs'

theorem ReceiversInv.bad_step (hinv : ReceiversInv h) (hstep : h.step a = some h')
    (hbad : ¬ h.CallOk a) : ¬ ReceiversHeld h' := by
  obtain ⟨s', hs', rfl⟩ := Option.map_eq_some_iff.mp hstep
  rintro ⟨hheld, hkept⟩
  cases a with
  | resumeSession req stamps =>
    unfold ServiceHistory.CallOk at hbad
    push Not at hbad
    obtain ⟨hdir, hbad⟩ := hbad
    rcases hsession : h.service.kernel.sessions req.sessionId with - | handle
    · obtain ⟨-, hid⟩ := hbad (by simp [hsession])
      rw [← resumedSession_id_iff] at hid
      have hreply := @Kernel.resume_reply h.service.kernel (h.service.resumeRequest req) hsession
        stamps
      simp only [AgentService.step, resumeSession, if_neg hdir, Option.some.injEq] at hs'
      subst hs'
      have hown := congrFun ((keepReceivers_ownChannels h.service _
        (h.service.kernel.resume (h.service.resumeRequest req) stamps).2.1).trans
          (resume_ownChannels hinv.owned hsession stamps)) req.sessionId
      rw [update_self] at hown
      obtain ⟨hparked | ⟨f, hf, -, hreceivers, -⟩, -⟩ :=
        hheld req.sessionId h.service.nextChannels hown
          (.inl fun stream => by simp [openedAfter, hdir, hsession, forget])
      · rcases update_eq_some hparked with ⟨hsame, -⟩ | ⟨-, hparked⟩
        · exact hid (hreply.symm.trans hsame.symm)
        · exact Nat.lt_irrefl _ (hinv.owned.parked _ _ hparked).1
      · exact Nat.lt_irrefl _ (hreceivers ▸ (hinv.owned.forwarded f hf).1)
    · have hsame : h.service.pendingProxyReceivers req.sessionId =
          h.service.kernel.ownChannels req.sessionId := by
        by_contra hne
        obtain ⟨hnone, -⟩ := hbad fun _ => hne
        rw [hsession] at hnone
        cases hnone
      have hreplaces : h.replaces (.resumeSession req stamps) = true := by
        simp [replaces, hdir, hsession, hsame]
      simp [hreplaces] at hkept
  | chatInput stream sid =>
    unfold ServiceHistory.CallOk at hbad
    push Not at hbad
    obtain ⟨f, hf, hc, hgone⟩ := hbad
    have hheard := chatInput_heard hs'
    have hown : s'.kernel.ownChannels sid = some f.receivers := by
      rw [hheard.kernel]
      exact hc
    obtain ⟨hparked | ⟨g, hg, -, hreceivers, hconn⟩, -⟩ := hheld sid f.receivers hown
      (.inr ⟨stream, (congrFun hheard.connected stream).trans hheard.open_,
        mark_eq_true.mpr (.inl ⟨rfl, rfl⟩)⟩)
    · exact hinv.owned.apart f hf sid (hheard.leaves _ hparked)
    · rcases hheard.adds g hg with hg | ⟨c, rfl, hparked⟩
      · rw [hinv.owned.forwardedOnce g hg f hf hreceivers] at hconn
        exact hgone ((congrFun hheard.connected _).symm.trans hconn)
      · exact hinv.owned.apart f hf sid (hreceivers ▸ hparked)
  | chatDisconnect stream =>
    unfold ServiceHistory.CallOk at hbad
    push Not at hbad
    obtain ⟨f, hf, hsame, hc, other, hne, hconn, hopened⟩ := hbad
    obtain ⟨started, -, rfl⟩ := chatDisconnect_cases hs'
    have hconn' := connected_withStream h.service stream false started
    obtain ⟨hparked | ⟨g, hg, -, hreceivers, hopen⟩, -⟩ := hheld f.sessionId f.receivers hc
      (.inr ⟨other, by rw [hconn', update_of_ne hne, hconn],
        Bool.eq_true_of_not_eq_false hopened⟩)
    · exact hinv.owned.apart f hf _ hparked
    · rw [hinv.owned.forwardedOnce g hg f hf hreceivers, hconn', hsame,
        update_self] at hopen
      cases hopen
  | _ => exact hbad trivial

/-- Along every sequence of calls from the start, every live session whose chat
stream is open or not opened yet has the receivers of its own executor held for
it, exactly as long as every call meets `CallOk`. -/
theorem receivers_held_along_iff (disk : SessionTree) (backend : SessionBackend)
    (acts : List ServiceAction) :
    Along ServiceHistory.step ReceiversHeld (.start disk backend) acts ↔
      Meets ServiceHistory.step CallOk (.start disk backend) acts := by
  apply along_iff_meets (I := fun h => ReceiversInv h ∧ h.replaced = false)
  · rintro h ⟨hinv, hkept⟩
    exact hinv.receiversHeld hkept
  · rintro h a h' ⟨hinv, hkept⟩ hstep hok
    exact hinv.step hkept hstep hok
  · rintro h a h' ⟨hinv, -⟩ hstep hbad
    exact hinv.bad_step hstep hbad
  · exact ⟨receiversInv_start disk backend, rfl⟩

def reloadedPage : List ServiceAction :=
  let stamps : CommandStamps := ⟨1, ⟨2, 0⟩, 3, ⟨4, ⟨5, 1⟩, 6⟩, ⟨7, ⟨8, 2⟩, 9⟩⟩
  [.createSession ⟨"mock", none, "", ""⟩ stamps, .chatOpen 0,
    .resumeSession ⟨"session-2-0", "/data", "mock", none, ""⟩ stamps, .chatInput 0 "session-2-0"]

/-- The stream forwards the receivers of the resume, which have no sender; those
of the session's executor are gone. -/
theorem resume_replaces_receivers :
    ¬ ∀ disk backend acts, Along ServiceHistory.step ReceiversHeld (.start disk backend) acts := by
  intro hlaw
  have hrun : (run ServiceHistory.step (.start .empty (.memory .new)) reloadedPage).any (fun h =>
      h.service.kernel.ownChannels "session-2-0" = some 0 ∧
      h.service.connected 0 = true ∧ h.opened 0 "session-2-0" = true ∧
      h.service.pendingProxyReceivers "session-2-0" = none ∧
      h.service.forwarders = [⟨"session-2-0", 0, 1⟩] ∧
      h.service.kernel.receiving 0 = false) = true := by
    decide +kernel
  obtain ⟨h, hh, hfacts⟩ := (Option.any_eq_true _ _).mp hrun
  obtain ⟨hown, hconn, hopened, hparked, hforwarders, hdropped⟩ := of_decide_eq_true hfacts
  have hheld := (((hlaw .empty (.memory .new) reloadedPage).last hh).1 _ 0 hown
    (.inr ⟨0, hconn, hopened⟩)).2
  rw [hdropped] at hheld
  cases hheld

end DbClinic.Server
