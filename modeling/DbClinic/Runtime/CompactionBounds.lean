import DbClinic.Runtime.ToolPairing

/-!
When a compaction returns and removes something. The cut starts at the number of
messages to preserve, counted from the end; at the very end there is no message to
look at. It walks back over tool results, and if it reaches the summary or the
start, nothing is left to remove.
-/

namespace DbClinic.Runtime

/-- What a compaction is to do: it returns, an unchanged session means that nothing
was removed, and a session over its budget loses a message. -/
def CompactsProperly (session : Session) (config : CompactionConfig) (now : Nat) : Prop :=
  ∃ result, compactSession session config now = some result ∧
    (result.removedMessageCount = 0 ↔ result.compactedSession = session) ∧
    (result.removedMessageCount = 0 → result.summary = "") ∧
    (shouldCompact session config = true → 0 < result.removedMessageCount)

/-- Between two positions there is a message that the walk of the cut stops at, or
a tool use before its end. -/
def StopsBetween (messages : List ConversationMessage) (low high : Nat) : Prop :=
  ∃ j message, low < j ∧ j ≤ high ∧ messages[j]? = some message ∧
    (startsWithToolResult message = false ∨ (j < high ∧ hasToolUse message = true))

section Walk

variable {messages : List ConversationMessage} {prefixLen k keepFrom : Nat}

theorem walkBack_ge (hk : prefixLen ≤ k) (h : walkBack messages prefixLen k = some keepFrom) :
    prefixLen ≤ keepFrom ∧ keepFrom ≤ k := by
  induction k with
  | zero =>
    cases h
    exact ⟨hk, Nat.le_refl 0⟩
  | succ k ih =>
    unfold walkBack at h
    split at h
    · cases h
      exact ⟨hk, Nat.le_refl _⟩
    · have hle : prefixLen ≤ k := by omega
      split at h
      · split at h
        · cases h
          exact ⟨hk, Nat.le_refl _⟩
        · split at h
          · rw [← Option.some.inj h]
            exact ⟨hle, Nat.le_succ k⟩
          · have hrest := ih hle h
            exact ⟨hrest.1, by omega⟩
      · cases h

theorem walkBack_gt_iff (hk : prefixLen ≤ k)
    (h : walkBack messages prefixLen k = some keepFrom) :
    prefixLen < keepFrom ↔ StopsBetween messages prefixLen k := by
  induction k with
  | zero =>
    cases h
    constructor
    · intro hlt
      omega
    · rintro ⟨j, message, hlow, hhigh, -⟩
      omega
  | succ k ih =>
    unfold walkBack at h
    split at h
    · cases h
      constructor
      · intro hlt
        omega
      · rintro ⟨j, message, hlow, hhigh, -⟩
        omega
    · have hle : prefixLen ≤ k := by omega
      split at h
      · rename_i first preceding hfirst hpreceding
        split at h
        · rename_i hstarts
          cases h
          exact iff_of_true (by omega)
            ⟨k + 1, first, by omega, Nat.le_refl _, hfirst, .inl hstarts⟩
        · rename_i hstarts
          split at h
          · -- The tool use before the cut is kept too.
            rename_i huse
            rw [← Option.some.inj h]
            constructor
            · intro hlt
              exact ⟨k, preceding, hlt, Nat.le_succ k, hpreceding, .inr ⟨Nat.lt_succ_self k, huse⟩⟩
            · rintro ⟨j, message, hlow, hhigh, hmsg, hstop⟩
              rcases Nat.lt_or_eq_of_le hhigh with hlt | rfl
              · omega
              · obtain rfl := Option.some.inj (hfirst.symm.trans hmsg)
                rcases hstop with hstop | ⟨hlt, -⟩
                · exact absurd hstop hstarts
                · omega
          · rename_i huse
            rw [ih hle h]
            constructor
            · rintro ⟨j, message, hlow, hhigh, hmsg, hstop⟩
              exact ⟨j, message, hlow, by omega, hmsg,
                hstop.imp id fun hboth => ⟨by omega, hboth.2⟩⟩
            · rintro ⟨j, message, hlow, hhigh, hmsg, hstop⟩
              rcases Nat.lt_or_eq_of_le hhigh with hlt | rfl
              · refine ⟨j, message, hlow, by omega, hmsg, hstop.imp id fun hboth => ?_⟩
                refine ⟨Nat.lt_of_le_of_ne (by omega) fun heq => ?_, hboth.2⟩
                subst heq
                obtain rfl := Option.some.inj (hpreceding.symm.trans hmsg)
                exact huse hboth.2
              · obtain rfl := Option.some.inj (hfirst.symm.trans hmsg)
                rcases hstop with hstop | ⟨hlt, -⟩
                · exact absurd hstop hstarts
                · omega
      · cases h

theorem walkBack_end (h : prefixLen < messages.length) :
    walkBack messages prefixLen messages.length = none := by
  obtain ⟨k, hk⟩ : ∃ k, messages.length = k + 1 := ⟨messages.length - 1, by omega⟩
  have hout : messages[k + 1]? = none := by
    rw [List.getElem?_eq_none_iff]
    omega
  rw [hk]
  unfold walkBack
  rw [if_neg (by omega), hout]

end Walk

section Compact

variable {session : Session} {config : CompactionConfig}

theorem recordCompaction_ne (session : Session) (messages : List ConversationMessage)
    (summary : String) (removed now : Nat) :
    { session with messages := messages }.recordCompaction summary removed now ≠ session := by
  intro heq
  have hcompaction := congrArg Session.compaction heq
  cases hold : session.compaction with
  | none => simp [Session.recordCompaction, hold] at hcompaction
  | some old =>
    have hcount := congrArg (fun c => c.map SessionCompaction.count) hcompaction
    simp [Session.recordCompaction, hold] at hcount
    omega

theorem compactSession_eq (now : Nat) (hshould : shouldCompact session config = true) {keepFrom : Nat}
    (hwalk : walkBack session.messages (compactedSummaryPrefixLen session.messages)
      (session.messages.length - config.preserveRecentMessages) = some keepFrom) :
    ∃ result summary continuation, compactSession session config now = some result ∧
      result.removedMessageCount =
        ((session.messages.take keepFrom).drop
          (compactedSummaryPrefixLen session.messages)).length ∧
      result.compactedSession = { session with
        messages := ⟨.system, [.text continuation], none⟩ :: session.messages.drop keepFrom
        }.recordCompaction summary result.removedMessageCount now := by
  unfold compactSession
  rw [if_neg (by simp [hshould])]
  dsimp only
  rw [hwalk]
  exact ⟨_, _, _, rfl, rfl, rfl⟩

theorem compactSession_none (now : Nat) (hshould : shouldCompact session config = true)
    (hwalk : walkBack session.messages (compactedSummaryPrefixLen session.messages)
      (session.messages.length - config.preserveRecentMessages) = none) :
    compactSession session config now = none := by
  unfold compactSession
  rw [if_neg (by simp [hshould])]
  dsimp only
  rw [hwalk]

end Compact

/-- A compaction does what it is to do exactly if the session is within its budget,
or it keeps a message and the cut stops before everything is kept. -/
theorem compactsProperly_iff (session : Session) (config : CompactionConfig) (now : Nat) :
    CompactsProperly session config now ↔
      shouldCompact session config = false ∨
        (1 ≤ config.preserveRecentMessages ∧
          StopsBetween session.messages (compactedSummaryPrefixLen session.messages)
            (session.messages.length - config.preserveRecentMessages)) := by
  cases hshould : shouldCompact session config with
  | false =>
    refine iff_of_true ?_ (.inl rfl)
    refine ⟨⟨"", "", session, 0⟩, ?_, iff_of_true rfl rfl, fun _ => rfl, fun h => ?_⟩
    · simp [compactSession, hshould]
    · rw [hshould] at h
      cases h
  | true =>
    have hlen := shouldCompact_length hshould
    rcases Nat.eq_zero_or_pos config.preserveRecentMessages with hzero | hpos
    · -- The cut is at the end, where no message is.
      have hnone : compactSession session config now = none := by
        refine compactSession_none now hshould ?_
        rw [hzero, Nat.sub_zero]
        exact walkBack_end (by omega)
      constructor
      · rintro ⟨result, hres, -⟩
        rw [hnone] at hres
        cases hres
      · rintro (hfalse | ⟨hone, -⟩)
        · cases hfalse
        · omega
    · have hcut : session.messages.length - config.preserveRecentMessages <
          session.messages.length := by omega
      obtain ⟨keepFrom, hwalk⟩ := walkBack_total (compactedSummaryPrefixLen session.messages) hcut
      have hge := walkBack_ge (by omega) hwalk
      have hstops := walkBack_gt_iff (by omega) hwalk
      obtain ⟨result, summary, continuation, hres, hremoved, hsession⟩ :=
        compactSession_eq now hshould hwalk
      have hcount : result.removedMessageCount =
          keepFrom - compactedSummaryPrefixLen session.messages := by
        rw [hremoved, List.length_drop, List.length_take]
        omega
      have hchanged : result.compactedSession ≠ session := by
        rw [hsession]
        exact recordCompaction_ne _ _ _ _ _
      constructor
      · rintro ⟨found, hfound, -, -, hover⟩
        obtain rfl := Option.some.inj (hres.symm.trans hfound)
        have hsome := hover hshould
        exact .inr ⟨hpos, hstops.mp (by omega)⟩
      · rintro (hfalse | ⟨-, hstop⟩)
        · cases hfalse
        · have hgt := hstops.mpr hstop
          exact ⟨result, hres, iff_of_false (by omega) hchanged, fun hnone => by omega,
            fun _ => by omega⟩

/-- With nothing to preserve, the cut is past the last message. -/
theorem preserve_nothing_panics :
    ¬CompactsProperly { Session.new 0 ⟨0, 0⟩ with messages := [.userText "hi"] } ⟨0, 0⟩ 1 := by
  rintro ⟨result, hres, -⟩
  have hnone : compactSession { Session.new 0 ⟨0, 0⟩ with messages := [.userText "hi"] } ⟨0, 0⟩ 1 =
      none := by decide
  rw [hnone] at hres
  cases hres

end DbClinic.Runtime
