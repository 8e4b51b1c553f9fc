import Mathlib.Tactic
import DbClinic.Lib.KeyMap

/-!
The approval-token ledger: grants bound to a scope, an approving actor and an
approved executor, with an expiry and a number of uses. Uses are the 32-bit
counters and times the 64-bit seconds of the source. The replay protection is
one potential: the uses a token has left fall by one with every consume that
succeeds, and only an insert of the token raises them again.
-/

namespace DbClinic.Runtime

structure ApprovalScope where
  policy : String
  action : String
  repository : Option String
  branch : Option String
  deriving DecidableEq

structure ApprovalDelegationHop where
  actor : String
  sessionId : Option String
  reason : String
  deriving DecidableEq

def ApprovalDelegationHop.new (actor reason : String) : ApprovalDelegationHop :=
  ⟨actor, none, reason⟩

inductive ApprovalTokenStatus where
  | pending
  | granted
  | consumed
  | expired
  | revoked
  deriving DecidableEq

inductive ApprovalTokenError where
  | noApproval
  | approvalPending
  | approvalExpired
  | approvalRevoked
  | approvalAlreadyConsumed
  | scopeMismatch (expected actual : ApprovalScope)
  | unauthorizedDelegate (expected actual : String)
  deriving DecidableEq

structure ApprovalTokenGrant where
  token : String
  scope : ApprovalScope
  approvingActor : String
  approvedExecutor : String
  status : ApprovalTokenStatus
  expiresAtEpochSeconds : Option UInt64
  maxUses : UInt32
  uses : UInt32
  delegationChain : List ApprovalDelegationHop
  deriving DecidableEq

namespace ApprovalTokenGrant

def pending (token : String) (scope : ApprovalScope)
    (approvingActor approvedExecutor : String) : ApprovalTokenGrant where
  token := token
  scope := scope
  approvingActor := approvingActor
  approvedExecutor := approvedExecutor
  status := .pending
  expiresAtEpochSeconds := none
  maxUses := 1
  uses := 0
  delegationChain := []

def approve (grant : ApprovalTokenGrant) : ApprovalTokenGrant :=
  { grant with status := .granted }

def granted (token : String) (scope : ApprovalScope)
    (approvingActor approvedExecutor : String) : ApprovalTokenGrant :=
  (pending token scope approvingActor approvedExecutor).approve

def withMaxUses (grant : ApprovalTokenGrant) (maxUses : UInt32) : ApprovalTokenGrant :=
  { grant with maxUses := max maxUses 1 }

end ApprovalTokenGrant

structure ApprovalTokenAudit where
  token : String
  scope : ApprovalScope
  approvingActor : String
  executingActor : String
  status : ApprovalTokenStatus
  delegatedExecution : Bool
  delegationChain : List ApprovalDelegationHop
  uses : UInt32
  maxUses : UInt32
  deriving DecidableEq

structure ApprovalTokenLedger where
  grants : KeyMap String ApprovalTokenGrant

namespace ApprovalTokenLedger

def new : ApprovalTokenLedger := ⟨KeyMap.empty⟩

def insert (ledger : ApprovalTokenLedger) (grant : ApprovalTokenGrant) : ApprovalTokenLedger :=
  ⟨ledger.grants.insert grant.token grant⟩

def get (ledger : ApprovalTokenLedger) (token : String) : Option ApprovalTokenGrant :=
  ledger.grants.get token

def validateGrant (grant : ApprovalTokenGrant) (scope : ApprovalScope)
    (executingActor : String) (now : UInt64) : Except ApprovalTokenError Unit :=
  match grant.status with
  | .pending => .error .approvalPending
  | .consumed => .error .approvalAlreadyConsumed
  | .expired => .error .approvalExpired
  | .revoked => .error .approvalRevoked
  | .granted =>
    if grant.expiresAtEpochSeconds.any fun expiresAt => now > expiresAt then
      .error .approvalExpired
    else if grant.uses ≥ grant.maxUses then .error .approvalAlreadyConsumed
    else if grant.scope ≠ scope then .error (.scopeMismatch grant.scope scope)
    else if grant.approvedExecutor ≠ executingActor then
      .error (.unauthorizedDelegate grant.approvedExecutor executingActor)
    else .ok ()

def auditFor (grant : ApprovalTokenGrant) (executingActor : String) : ApprovalTokenAudit :=
  let chain :=
    if grant.delegationChain.isEmpty then
      [ApprovalDelegationHop.new grant.approvingActor "approval granted"]
    else grant.delegationChain
  let delegated := decide (grant.approvingActor ≠ executingActor)
  let chain :=
    if delegated && !(chain.any fun hop => hop.actor = executingActor) then
      chain ++ [ApprovalDelegationHop.new executingActor "delegated execution"]
    else chain
  ⟨grant.token, grant.scope, grant.approvingActor, executingActor, grant.status, delegated,
    chain, grant.uses, grant.maxUses⟩

def useGrant (grant : ApprovalTokenGrant) : ApprovalTokenGrant :=
  let used := { grant with uses := grant.uses + 1 }
  if used.uses ≥ used.maxUses then { used with status := .consumed } else used

def revoke (ledger : ApprovalTokenLedger) (token : String) :
    ApprovalTokenLedger × Except ApprovalTokenError ApprovalTokenAudit :=
  match ledger.get token with
  | none => (ledger, .error .noApproval)
  | some grant =>
    let grant := { grant with status := .revoked }
    (⟨ledger.grants.insert token grant⟩, .ok (auditFor grant grant.approvedExecutor))

def verify (ledger : ApprovalTokenLedger) (token : String) (scope : ApprovalScope)
    (executingActor : String) (now : UInt64) : Except ApprovalTokenError ApprovalTokenAudit :=
  match ledger.get token with
  | none => .error .noApproval
  | some grant =>
    match validateGrant grant scope executingActor now with
    | .error e => .error e
    | .ok () => .ok (auditFor grant executingActor)

def consume (ledger : ApprovalTokenLedger) (token : String) (scope : ApprovalScope)
    (executingActor : String) (now : UInt64) :
    ApprovalTokenLedger × Except ApprovalTokenError ApprovalTokenAudit :=
  match ledger.get token with
  | none => (ledger, .error .noApproval)
  | some grant =>
    match validateGrant grant scope executingActor now with
    | .error e => (ledger, .error e)
    | .ok () =>
      (⟨ledger.grants.insert token (useGrant grant)⟩,
        .ok (auditFor (useGrant grant) executingActor))

end ApprovalTokenLedger

inductive LedgerCall where
  | insert (grant : ApprovalTokenGrant)
  | revoke (token : String)
  | verify (token : String) (scope : ApprovalScope) (executingActor : String) (now : UInt64)
  | consume (token : String) (scope : ApprovalScope) (executingActor : String) (now : UInt64)
  deriving DecidableEq

namespace ApprovalTokenLedger

def call (ledger : ApprovalTokenLedger) :
    LedgerCall → ApprovalTokenLedger × Except ApprovalTokenError (Option ApprovalTokenAudit)
  | .insert grant => (ledger.insert grant, .ok none)
  | .revoke token => ((ledger.revoke token).1, (ledger.revoke token).2.map some)
  | .verify token scope actor now => (ledger, (ledger.verify token scope actor now).map some)
  | .consume token scope actor now =>
    ((ledger.consume token scope actor now).1,
      (ledger.consume token scope actor now).2.map some)

def after (ledger : ApprovalTokenLedger) : List LedgerCall → ApprovalTokenLedger
  | [] => ledger
  | c :: rest => (ledger.call c).1.after rest

def IsConsume (token : String) : LedgerCall → Bool
  | .consume t _ _ _ => t = token
  | _ => false

def IsInsert (token : String) : LedgerCall → Bool
  | .insert grant => grant.token = token
  | _ => false

def consumed (token : String) : ApprovalTokenLedger → List LedgerCall → Nat
  | _, [] => 0
  | ledger, c :: rest =>
    (if IsConsume token c && (ledger.call c).2.isOk then 1 else 0) +
      consumed token (ledger.call c).1 rest

def left (grant : ApprovalTokenGrant) : Nat :=
  if grant.status = .granted then grant.maxUses.toNat - grant.uses.toNat else 0

@[simp] theorem left_revoked (grant : ApprovalTokenGrant) :
    left { grant with status := .revoked } = 0 := rfl

def usesLeft (ledger : ApprovalTokenLedger) (token : String) : Nat :=
  (ledger.get token).elim 0 left

/-- What a grant allows: the request made on it meets every field. -/
structure Allows (grant : ApprovalTokenGrant) (scope : ApprovalScope) (actor : String)
    (now : UInt64) : Prop where
  granted : grant.status = .granted
  unexpired : ∀ expiresAt, grant.expiresAtEpochSeconds = some expiresAt → now ≤ expiresAt
  unused : grant.uses < grant.maxUses
  scope : grant.scope = scope
  executor : grant.approvedExecutor = actor

theorem validateGrant_ok_iff (grant : ApprovalTokenGrant) (scope : ApprovalScope)
    (actor : String) (now : UInt64) :
    validateGrant grant scope actor now = .ok () ↔ Allows grant scope actor now := by
  constructor
  · intro h
    unfold validateGrant at h
    cases hstatus : grant.status with
    | granted =>
      rw [hstatus] at h
      dsimp only at h
      split_ifs at h with hexpired huses hscope hexecutor
      refine ⟨hstatus, fun expiresAt heq => ?_, UInt32.not_le.mp huses, not_not.mp hscope,
        not_not.mp hexecutor⟩
      rw [heq, Option.any_some, decide_eq_true_eq] at hexpired
      exact UInt64.not_lt.mp hexpired
    | pending | consumed | expired | revoked =>
      rw [hstatus] at h
      cases h
  · rintro ⟨hstatus, hexpires, huses, hscope, hexecutor⟩
    have hunexpired :
        grant.expiresAtEpochSeconds.any (fun expiresAt => now > expiresAt) = false := by
      cases heq : grant.expiresAtEpochSeconds with
      | none => rfl
      | some expiresAt => simpa using hexpires expiresAt heq
    unfold validateGrant
    simp [hstatus, hunexpired, huses, hscope, hexecutor]

theorem left_useGrant {grant : ApprovalTokenGrant} (hgranted : grant.status = .granted)
    (hunused : grant.uses < grant.maxUses) : left (useGrant grant) + 1 = left grant := by
  have hlt : grant.uses.toNat < grant.maxUses.toNat := UInt32.lt_iff_toNat_lt.mp hunused
  have hadd : (grant.uses + 1).toNat = grant.uses.toNat + 1 := by
    have hsize := grant.maxUses.toNat_lt
    rw [UInt32.toNat_add]
    exact Nat.mod_eq_of_lt (by simp; omega)
  have hleft : left grant = grant.maxUses.toNat - grant.uses.toNat := if_pos hgranted
  unfold useGrant
  dsimp only
  split
  · rename_i hmax
    have hge : grant.maxUses.toNat ≤ (grant.uses + 1).toNat := UInt32.le_iff_toNat_le.mp hmax
    have hconsumed : left { grant with uses := grant.uses + 1, status := .consumed } = 0 := rfl
    rw [hconsumed, hleft]
    omega
  · have hused : left { grant with uses := grant.uses + 1 } =
        grant.maxUses.toNat - (grant.uses + 1).toNat := if_pos hgranted
    rw [hused, hleft, hadd]
    omega

section Calls

variable {ledger : ApprovalTokenLedger} {token : String} {scope : ApprovalScope}
  {actor : String} {now : UInt64}

theorem consume_ok_iff {ledger' : ApprovalTokenLedger} {audit : ApprovalTokenAudit} :
    ledger.consume token scope actor now = (ledger', .ok audit) ↔
      ∃ grant, ledger.get token = some grant ∧ Allows grant scope actor now ∧
        ledger' = ⟨ledger.grants.insert token (useGrant grant)⟩ ∧
        audit = auditFor (useGrant grant) actor := by
  unfold consume
  cases hget : ledger.get token with
  | none => simp
  | some grant =>
    cases hvalid : validateGrant grant scope actor now with
    | error e =>
      have hnot : ¬ Allows grant scope actor now := by
        rw [← validateGrant_ok_iff, hvalid]
        simp
      simp [hvalid, hnot]
    | ok u =>
      have hallows := (validateGrant_ok_iff grant scope actor now).mp hvalid
      simp [hvalid, hallows, eq_comm]

theorem verify_ok_iff :
    (∃ audit, ledger.verify token scope actor now = .ok audit) ↔
      ∃ grant, ledger.get token = some grant ∧ Allows grant scope actor now := by
  unfold verify
  cases hget : ledger.get token with
  | none => simp
  | some grant =>
    have hiff := validateGrant_ok_iff grant scope actor now
    cases hvalid : validateGrant grant scope actor now with
    | error e =>
      rw [hvalid] at hiff
      simp only [reduceCtorEq, false_iff] at hiff
      simp [hvalid, hiff]
    | ok u => simp [hvalid, hiff.mp hvalid]

theorem verify_ok_iff_consume_ok :
    (∃ audit, ledger.verify token scope actor now = .ok audit) ↔
      ∃ audit, (ledger.consume token scope actor now).2 = .ok audit := by
  rw [verify_ok_iff]
  constructor
  · rintro ⟨grant, hget, hallows⟩
    exact ⟨_, congrArg Prod.snd (consume_ok_iff.mpr ⟨grant, hget, hallows, rfl, rfl⟩)⟩
  · rintro ⟨audit, hok⟩
    obtain ⟨grant, hget, hallows, -⟩ := consume_ok_iff.mp (Prod.ext rfl hok)
    exact ⟨grant, hget, hallows⟩

variable (ledger) in
theorem revoke_get (token other : String) :
    (ledger.revoke token).1.get other =
      if other = token then
        (ledger.get token).map fun grant => { grant with status := .revoked }
      else ledger.get other := by
  unfold revoke
  cases hget : ledger.get token with
  | none =>
    by_cases h : other = token
    · simp [h, hget]
    · simp [h]
  | some grant => exact ledger.grants.get_insert token other _

theorem consume_error {e : ApprovalTokenError}
    (h : (ledger.consume token scope actor now).2 = .error e) :
    (ledger.consume token scope actor now).1 = ledger := by
  unfold consume at h ⊢
  cases hget : ledger.get token with
  | none => rfl
  | some grant =>
    simp only [hget] at h ⊢
    cases hvalid : validateGrant grant scope actor now with
    | error e => rfl
    | ok u =>
      rw [hvalid] at h
      cases h

theorem revoke_error {e : ApprovalTokenError} (h : (ledger.revoke token).2 = .error e) :
    (ledger.revoke token).1 = ledger := by
  unfold revoke at h ⊢
  cases hget : ledger.get token with
  | none => rfl
  | some grant =>
    rw [hget] at h
    cases h

theorem call_error {c : LedgerCall} {e : ApprovalTokenError} (h : (ledger.call c).2 = .error e) :
    (ledger.call c).1 = ledger := by
  cases c with
  | insert grant => cases h
  | revoke token =>
    cases hres : (ledger.revoke token).2 with
    | error e => exact revoke_error hres
    | ok audit =>
      simp only [call, hres] at h
      cases h
  | verify token scope actor now => rfl
  | consume token scope actor now =>
    cases hres : (ledger.consume token scope actor now).2 with
    | error e => exact consume_error hres
    | ok audit =>
      simp only [call, hres] at h
      cases h

variable (ledger) in
theorem call_cases (c : LedgerCall) (hinsert : IsInsert token c = false) :
    ((ledger.call c).1.get token = ledger.get token ∧
        (IsConsume token c && (ledger.call c).2.isOk) = false) ∨
      (c = .revoke token ∧ ∃ grant, ledger.get token = some grant ∧
        (ledger.call c).1.get token = some { grant with status := .revoked }) ∨
      ∃ scope actor now grant, c = .consume token scope actor now ∧
        ledger.get token = some grant ∧ Allows grant scope actor now ∧
        (ledger.call c).1.get token = some (useGrant grant) := by
  cases c with
  | insert grant =>
    have hne : token ≠ grant.token := fun h => of_decide_eq_false hinsert h.symm
    exact .inl ⟨ledger.grants.get_insert_of_ne grant hne, rfl⟩
  | verify other scope actor now => exact .inl ⟨rfl, rfl⟩
  | revoke other =>
    have hget := revoke_get ledger other token
    rcases eq_or_ne token other with rfl | hne
    · rw [if_pos rfl] at hget
      cases hold : ledger.get token with
      | none =>
        rw [hold] at hget
        exact .inl ⟨hget, rfl⟩
      | some grant =>
        rw [hold] at hget
        exact .inr (.inl ⟨rfl, grant, rfl, hget⟩)
    · rw [if_neg hne] at hget
      exact .inl ⟨hget, rfl⟩
  | consume other scope actor now =>
    cases hres : ledger.consume other scope actor now with
    | mk ledger' result =>
      cases result with
      | error e =>
        have hsame := consume_error (congrArg Prod.snd hres)
        refine .inl ⟨congrArg (fun l => l.get token) hsame, ?_⟩
        simp [call, hres, Except.map, Except.isOk, Except.toBool]
      | ok audit =>
        obtain ⟨grant, hget, hallows, hledger, -⟩ := consume_ok_iff.mp hres
        have hafter : (ledger.call (.consume other scope actor now)).1 =
            ⟨ledger.grants.insert other (useGrant grant)⟩ :=
          (congrArg Prod.fst hres).trans hledger
        rw [hafter]
        rcases eq_or_ne other token with rfl | hne
        · exact .inr (.inr ⟨scope, actor, now, grant, rfl, hget, hallows,
            ledger.grants.get_insert_self other _⟩)
        · refine .inl ⟨ledger.grants.get_insert_of_ne _ hne.symm, ?_⟩
          simp [IsConsume, hne]

variable (ledger) in
theorem call_usesLeft (c : LedgerCall) (hinsert : IsInsert token c = false) :
    (if IsConsume token c && (ledger.call c).2.isOk then 1 else 0) +
      (ledger.call c).1.usesLeft token ≤ ledger.usesLeft token := by
  rcases call_cases ledger c hinsert with
    ⟨hget, hnot⟩ | ⟨rfl, grant, hget, hafter⟩ |
    ⟨scope, actor, now, grant, rfl, hget, hallows, hafter⟩
  · rw [hnot]
    simp [usesLeft, hget]
  · simp [usesLeft, hget, hafter, IsConsume]
  · have hone := left_useGrant hallows.granted hallows.unused
    have hcount : (if IsConsume token (.consume token scope actor now) &&
        (ledger.call (.consume token scope actor now)).2.isOk then 1 else 0) ≤ 1 := by
      split <;> simp
    rw [usesLeft, hafter, usesLeft, hget, Option.elim_some, Option.elim_some]
    omega

variable (ledger) in
theorem consumed_le_usesLeft (calls : List LedgerCall)
    (hcalls : ∀ c ∈ calls, IsInsert token c = false) :
    consumed token ledger calls ≤ ledger.usesLeft token := by
  induction calls generalizing ledger with
  | nil => exact Nat.zero_le _
  | cons c rest ih =>
    have hstep := call_usesLeft ledger c (hcalls c (by simp))
    have hrest := ih (ledger.call c).1 fun d hd => hcalls d (by simp [hd])
    unfold consumed
    omega

structure SameTerms (grant held : ApprovalTokenGrant) : Prop where
  scope : held.scope = grant.scope
  executor : held.approvedExecutor = grant.approvedExecutor
  expiresAt : held.expiresAtEpochSeconds = grant.expiresAtEpochSeconds
  maxUses : held.maxUses = grant.maxUses

theorem SameTerms.useGrant {grant held : ApprovalTokenGrant} (h : SameTerms grant held) :
    SameTerms grant (useGrant held) := by
  unfold ApprovalTokenLedger.useGrant
  dsimp only
  split
  · exact ⟨h.scope, h.executor, h.expiresAt, h.maxUses⟩
  · exact ⟨h.scope, h.executor, h.expiresAt, h.maxUses⟩

theorem after_sameTerms {grant held : ApprovalTokenGrant} (calls : List LedgerCall)
    (hcalls : ∀ c ∈ calls, IsInsert token c = false)
    (hget : ledger.get token = some held) (hterms : SameTerms grant held) :
    ∃ held', (ledger.after calls).get token = some held' ∧ SameTerms grant held' := by
  induction calls generalizing ledger held with
  | nil => exact ⟨held, hget, hterms⟩
  | cons c rest ih =>
    have hrest : ∀ d ∈ rest, IsInsert token d = false := fun d hd => hcalls d (by simp [hd])
    rcases call_cases ledger c (hcalls c (by simp)) with
      ⟨hsame, -⟩ | ⟨-, grant', hget', hafter⟩ | ⟨-, -, -, grant', -, hget', -, hafter⟩
    · exact ih hrest (hsame.trans hget) hterms
    · rw [hget, Option.some.injEq] at hget'
      subst hget'
      exact ih hrest hafter ⟨hterms.scope, hterms.executor, hterms.expiresAt, hterms.maxUses⟩
    · rw [hget, Option.some.injEq] at hget'
      subst hget'
      exact ih hrest hafter hterms.useGrant

theorem after_append (before calls : List LedgerCall) :
    ledger.after (before ++ calls) = (ledger.after before).after calls := by
  induction before generalizing ledger with
  | nil => rfl
  | cons c rest ih => exact ih

end Calls

/-- The protection of a token over the calls `since`, made on the ledger that
the calls `before` built. -/
structure Protected (token : String) (before since : List LedgerCall) : Prop where
  /-- At most `max_uses` consumes succeed after an insert of the token. -/
  limited : ∀ grant, grant.token = token →
    consumed token (new.after (before ++ [.insert grant])) since ≤ grant.maxUses.toNat
  /-- Each of them on a granted and unexpired grant, for its scope and by its
  executor. -/
  entitled : ∀ grant, grant.token = token → ∀ pre scope actor now post audit,
    since = pre ++ .consume token scope actor now :: post →
    ((new.after (before ++ .insert grant :: pre)).consume token scope actor now).2 = .ok audit →
    (∃ held, (new.after (before ++ .insert grant :: pre)).get token = some held ∧
      held.status = .granted ∧ held.uses < grant.maxUses) ∧
    (∀ expiresAt, grant.expiresAtEpochSeconds = some expiresAt → now ≤ expiresAt) ∧
    scope = grant.scope ∧ actor = grant.approvedExecutor
  /-- None succeeds after a revoke. -/
  revoked : consumed token (new.after (before ++ [.revoke token])) since = 0
  /-- None succeeds on a token that was never inserted. -/
  unknown : consumed token new since = 0
  /-- Verify succeeds exactly when consume would. -/
  verified : ∀ scope actor now,
    (∃ audit, (new.after (before ++ since)).verify token scope actor now = .ok audit) ↔
      ∃ audit, ((new.after (before ++ since)).consume token scope actor now).2 = .ok audit
  /-- A call that fails leaves the ledger unchanged. -/
  unchanged : ∀ c e, ((new.after (before ++ since)).call c).2 = .error e →
    ((new.after (before ++ since)).call c).1 = new.after (before ++ since)

/-- After any calls, and until a token is inserted again, its grant is used at
most `max_uses` times, only as granted, and never once it was revoked. -/
theorem approval_token_protected (token : String) (before since : List LedgerCall)
    (hsince : ∀ c ∈ since, IsInsert token c = false) : Protected token before since := by
  refine ⟨?_, ?_, ?_, ?_, fun scope actor now => verify_ok_iff_consume_ok, fun c e => call_error⟩
  · rintro grant rfl
    have hbudget := consumed_le_usesLeft (new.after (before ++ [.insert grant]))
      since hsince
    have hget : (new.after (before ++ [.insert grant])).get grant.token = some grant := by
      rw [after_append]
      exact (new.after before).grants.get_insert_self grant.token grant
    have hleft : left grant ≤ grant.maxUses.toNat := by
      unfold left
      split
      · exact Nat.sub_le ..
      · exact Nat.zero_le _
    rw [usesLeft, hget] at hbudget
    exact hbudget.trans hleft
  · rintro grant rfl pre scope actor now post audit rfl hok
    obtain ⟨held, hget, hallows, -⟩ := consume_ok_iff.mp (Prod.ext rfl hok)
    have hpre : ∀ c ∈ pre, IsInsert grant.token c = false := fun c hc => hsince c (by simp [hc])
    have hafter : new.after (before ++ .insert grant :: pre) =
        ((new.after before).insert grant).after pre := after_append before _
    have hinsert : ((new.after before).insert grant).get grant.token = some grant :=
      (new.after before).grants.get_insert_self grant.token grant
    obtain ⟨held', hget', hterms⟩ :=
      after_sameTerms pre hpre hinsert (⟨rfl, rfl, rfl, rfl⟩ : SameTerms grant grant)
    rw [hafter, hget', Option.some.injEq] at hget
    subst hget
    refine ⟨⟨held', hafter ▸ hget', hallows.granted, hterms.maxUses ▸ hallows.unused⟩,
      fun expiresAt hexpires => ?_, ?_, ?_⟩
    · exact hallows.unexpired expiresAt (hterms.expiresAt.trans hexpires)
    · exact hallows.scope.symm.trans hterms.scope
    · exact hallows.executor.symm.trans hterms.executor
  · have hbudget := consumed_le_usesLeft (new.after (before ++ [.revoke token]))
      since hsince
    have hzero : (new.after (before ++ [.revoke token])).usesLeft token = 0 := by
      rw [after_append]
      change (((new.after before).revoke token).1.get token).elim 0 left = 0
      rw [revoke_get, if_pos rfl]
      cases (new.after before).get token with
      | none => rfl
      | some grant => rfl
    omega
  · have hbudget := consumed_le_usesLeft new since hsince
    have hzero : new.usesLeft token = 0 := rfl
    omega

/-- A token granted for two uses, consumed three times: the third call fails. -/
theorem approval_token_protected_twice :
    let grant := (ApprovalTokenGrant.granted "t" ⟨"p", "a", none, none⟩ "owner" "bot").withMaxUses 2
    let consume := LedgerCall.consume "t" ⟨"p", "a", none, none⟩ "bot" 5
    consumed "t" (new.after [.insert grant]) [consume, consume, consume] = 2 ∧
      Protected "t" [] [consume, consume, consume] :=
  ⟨by decide, approval_token_protected "t" [] _ (by decide)⟩

end ApprovalTokenLedger

end DbClinic.Runtime
