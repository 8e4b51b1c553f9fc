import Mathlib.Tactic.Linarith
import DbClinic.Api.Retry

/-!
How a request that is sent again ends. The delay doubles until its multiplier no
longer fits in 32 bits: behind the 33rd attempt there is no backoff, and the
request ends with an error of its own.
-/

namespace DbClinic.Api.Retry

/-- The nanoseconds of the backoff, without a bound on the numbers. -/
def backoffNanos (policy : RetryPolicy) (attempt : Nat) : Nat :=
  min (policy.initialBackoff.nanos * 2 ^ (attempt - 1)) policy.maxBackoff.nanos

variable {attempt : Nat}

theorem backoff_ok (policy : RetryPolicy) (h : attempt ≤ 32) :
    ∃ delay, backoffForAttempt policy attempt = .ok delay ∧
      delay.nanos = backoffNanos policy attempt := by
  have hbits : attempt - 1 < 32 := by omega
  by_cases hfits : policy.initialBackoff.nanos * 2 ^ (attempt - 1) ≤ MAX_NANOS
  · refine ⟨_, by simp [backoffForAttempt, checkedShlOne, hbits, Duration.checkedMul, hfits]; rfl, ?_⟩
    simp [Duration.min_nanos, backoffNanos]
  · refine ⟨policy.maxBackoff, ?_, ?_⟩
    · simp [backoffForAttempt, checkedShlOne, hbits, Duration.checkedMul, hfits]
    · have hmax := policy.maxBackoff.fits
      exact (Nat.min_eq_right (by omega)).symm

theorem backoff_overflow (policy : RetryPolicy) (h : 32 < attempt) :
    backoffForAttempt policy attempt = .error (.backoffOverflow attempt policy.initialBackoff) := by
  have hbits : ¬ attempt - 1 < 32 := by omega
  simp [backoffForAttempt, checkedShlOne, hbits]

variable {policy : RetryPolicy} {delay : Duration} {a b : Nat}

theorem attempt_le_of_backoff (h : backoffForAttempt policy attempt = .ok delay) :
    attempt ≤ 32 := by
  by_contra hlarge
  rw [backoff_overflow policy (by omega)] at h
  cases h

theorem backoffNanos_mono (policy : RetryPolicy) (h : a ≤ b) :
    backoffNanos policy a ≤ backoffNanos policy b := by
  have hpow : 2 ^ (a - 1) ≤ 2 ^ (b - 1) := Nat.pow_le_pow_right (by omega) (by omega)
  have hmul := Nat.mul_le_mul_left policy.initialBackoff.nanos hpow
  exact min_le_min hmul le_rfl

theorem backoff_mono (hab : a ≤ b) (h : backoffForAttempt policy b = .ok delay) :
    (∃ earlier, backoffForAttempt policy a = .ok earlier ∧ earlier.nanos ≤ delay.nanos) ∧
      delay.nanos ≤ policy.maxBackoff.nanos := by
  have hb : b ≤ 32 := attempt_le_of_backoff h
  obtain ⟨other, hother, hnanos⟩ := backoff_ok policy hb
  have hsame : other = delay := by
    rw [h] at hother
    exact (Except.ok.inj hother).symm
  subst hsame
  obtain ⟨earlier, hearlier, hearlierNanos⟩ := backoff_ok policy (hab.trans hb)
  refine ⟨⟨earlier, hearlier, ?_⟩, ?_⟩
  · rw [hnanos, hearlierNanos]
    exact backoffNanos_mono policy hab
  · rw [hnanos]
    exact Nat.min_le_right _ _

theorem baseNanos_toNat (base : Duration) :
    (baseNanos base).toNat = min base.nanos (2 ^ 64 - 1) := by
  unfold baseNanos
  split
  · rename_i h
    rw [UInt64.toNat_ofNat_of_lt' h]
    exact (Nat.min_eq_left (by omega)).symm
  · rename_i h
    simp
    omega

theorem mod_saturatingSucc (mixed : UInt64) {base : UInt64} (hbase : base ≠ 0) :
    (mixed % saturatingSucc base).toNat ≤ base.toNat := by
  have hpos : 0 < base.toNat := by
    have hne : base.toNat ≠ 0 := fun h => hbase (UInt64.toNat_inj.mp (by simpa using h))
    omega
  rw [UInt64.toNat_mod]
  unfold saturatingSucc
  split
  · exact (Nat.mod_lt _ hpos).le
  · rename_i hmax
    have hlt : base.toNat + 1 < 2 ^ 64 := by
      have hne : base.toNat ≠ 2 ^ 64 - 1 := fun h => hmax (UInt64.toNat_inj.mp (by simpa using h))
      have hsize := base.toNat_lt
      omega
    have hsucc : (base + 1).toNat = base.toNat + 1 := by
      rw [UInt64.toNat_add, UInt64.toNat_one]
      exact Nat.mod_eq_of_lt hlt
    rw [hsucc]
    have hmod : mixed.toNat % (base.toNat + 1) < base.toNat + 1 := Nat.mod_lt _ (by omega)
    omega

section Sending

variable {E : Type} (o : Outside E)

theorem jitter_le (base : Duration) (e : E) :
    (jitterForBase o base e).1.nanos ≤ min base.nanos (2 ^ 64 - 1) := by
  unfold jitterForBase
  split
  · exact Nat.zero_le _
  · rename_i hbase
    have h := mod_saturatingSucc
      (mix (o.rawNanos e).1 (o.tick (o.rawNanos e).2).1) hbase
    rwa [baseNanos_toNat] at h

/-- The sum of the backoff and a jitter fits for each attempt that is followed by a
sleep. -/
def SleepsFit (policy : RetryPolicy) : Prop :=
  ∀ attempt ≤ policy.maxRetries.toNat, ∀ delay, backoffForAttempt policy attempt = .ok delay →
    delay.nanos + min delay.nanos (2 ^ 64 - 1) ≤ MAX_NANOS

variable {policy : RetryPolicy} {e e₁ : E} {error : ApiError} {attempts : Nat} {run : Sent E}

theorem jittered_ok (hfit : SleepsFit policy) (hattempt : attempt ≤ policy.maxRetries.toNat)
    (hbits : attempt ≤ 32) (e : E) :
    ∃ delay e', jitteredBackoffForAttempt o policy attempt e = (.ok (some delay), e') := by
  obtain ⟨base, hbase, -⟩ := backoff_ok policy hbits
  have hjitter := jitter_le o base e
  have hsum := hfit attempt hattempt base hbase
  have hfits : base.nanos + (jitterForBase o base e).1.nanos ≤ MAX_NANOS := by omega
  refine ⟨⟨_, hfits⟩, (jitterForBase o base e).2, ?_⟩
  simp [jitteredBackoffForAttempt, hbase, Duration.checkedAdd, hfits]

theorem jittered_le {e' : E}
    (h : jitteredBackoffForAttempt o policy attempt e = (.ok (some delay), e')) :
    delay.nanos ≤ 2 * policy.maxBackoff.nanos := by
  unfold jitteredBackoffForAttempt at h
  split at h
  · cases h
  · rename_i base hbase
    have hmax := (backoff_mono le_rfl hbase).2
    have hjitter := jitter_le o base e
    rcases hsum : jitterForBase o base e with ⟨jitter, e₁⟩
    simp only [hsum, Prod.mk.injEq, Except.ok.injEq] at h hjitter
    have hnanos := Duration.checkedAdd_nanos h.1
    omega

/-- An answer that ends the request: a success, or an error that is not retryable. -/
def IsFinal : Except ApiError Response → Prop
  | .ok _ => True
  | .error error => error.isRetryable = false

/-- Nothing is sent behind an answer that ends the request, and it is the result. -/
def StopsAtFinal (run : Sent E) : Prop :=
  ∀ front answer back, run.answers = front ++ answer :: back → IsFinal answer →
    back = [] ∧ run.result = some answer

variable {answer : Except ApiError Response} {delays : List Duration}

theorem stopsAtFinal_last :
    StopsAtFinal ⟨some answer, [answer], delays, e⟩ := by
  intro front other back hsplit _
  cases front with
  | nil =>
    obtain ⟨rfl, rfl⟩ := List.cons.inj hsplit
    exact ⟨rfl, rfl⟩
  | cons first front => simp at hsplit

theorem stopsAtFinal_retryable (h : error.isRetryable = true)
    {result : Option (Except ApiError Response)} :
    StopsAtFinal ⟨result, [.error error], delays, e⟩ := by
  intro front other back hsplit hfinal
  cases front with
  | nil =>
    obtain ⟨rfl, rfl⟩ := List.cons.inj hsplit
    rw [IsFinal, h] at hfinal
    cases hfinal
  | cons first front => simp at hsplit

theorem StopsAtFinal.cons (hrun : StopsAtFinal run) (h : error.isRetryable = true)
    (delays : List Duration) :
    StopsAtFinal { run with answers := .error error :: run.answers, delays } := by
  intro front answer back hsplit hfinal
  cases front with
  | nil =>
    obtain ⟨rfl, -⟩ := List.cons.inj hsplit
    rw [IsFinal, h] at hfinal
    cases hfinal
  | cons first front =>
    obtain ⟨-, hrest⟩ := List.cons.inj hsplit
    exact hrun front answer back hrest hfinal

theorem retryable_of_mayRetry {guard : Option Bool} (h : mayRetry policy attempts error = guard)
    (hguard : guard ≠ some false) : error.isRetryable = true := by
  by_contra hnot
  apply hguard
  simpa [mayRetry, hnot] using h.symm

theorem mayRetry_within (hretry : error.isRetryable = true)
    (hmax : policy.maxRetries.toNat + 1 < 2 ^ 32) (hattempts : attempts ≤ policy.maxRetries.toNat) :
    mayRetry policy (attempts + 1) error = some true := by
  simp only [mayRetry, hretry, if_true, checkedAddU32, hmax, Option.map_some]
  simpa using hattempts

theorem sendFrom_stops (policy : RetryPolicy) (attempts : Nat) (e : E) :
    StopsAtFinal (sendFrom o policy attempts e) := by
  induction attempts, e using sendFrom.induct o policy with
  | case1 attempts e hoverflow =>
    intro front answer back hsplit _
    rw [sendFrom, hoverflow] at hsplit
    simp at hsplit
  | case2 attempts e next hnext response e₁ hreq =>
    rw [sendFrom, hnext, hreq]
    exact stopsAtFinal_last
  | case3 attempts e next hnext error e₁ hreq hretry =>
    rw [sendFrom, hnext, hreq]
    simp only [hretry]
    exact stopsAtFinal_retryable (retryable_of_mayRetry hretry (by simp))
  | case4 attempts e next hnext error e₁ hreq hretry =>
    rw [sendFrom, hnext, hreq]
    simp only [hretry]
    exact stopsAtFinal_last
  | case5 attempts e next hnext error e₁ hreq hretry hlimit =>
    rw [sendFrom, hnext, hreq]
    simp only [hretry, hlimit, if_true]
    exact stopsAtFinal_retryable (retryable_of_mayRetry hretry (by simp))
  | case6 attempts e next hnext error e₁ hreq hretry hlimit overflow e₂ hbackoff =>
    rw [sendFrom, hnext, hreq]
    simp only [hretry, hlimit, if_false, hbackoff]
    exact stopsAtFinal_retryable (retryable_of_mayRetry hretry (by simp))
  | case7 attempts e next hnext error e₁ hreq hretry hlimit e₂ hbackoff =>
    rw [sendFrom, hnext, hreq]
    simp only [hretry, hlimit, if_false, hbackoff]
    exact stopsAtFinal_retryable (retryable_of_mayRetry hretry (by simp))
  | case8 attempts e next hnext error e₁ hreq hretry hlimit delay e₂ hbackoff ih =>
    rw [sendFrom, hnext, hreq]
    simp only [hretry, hlimit, if_false, hbackoff]
    exact ih.cons (retryable_of_mayRetry hretry (by simp)) _

/-- How far the loop goes: one attempt more than the retries, but no further than
the backoff does. -/
def attemptLimit (policy : RetryPolicy) : Nat := min policy.maxRetries.toNat 32 + 1

def limitError (policy : RetryPolicy) (last : ApiError) : ApiError :=
  if policy.maxRetries.toNat ≤ 32 then .retriesExhausted (policy.maxRetries.toNat + 1) last
  else .backoffOverflow 33 policy.initialBackoff

/-- The request failed each time, and the loop came to its limit behind `attempts`
attempts. -/
structure AtLimit (policy : RetryPolicy) (attempts : Nat) (run : Sent E) : Prop where
  attempts : attempts + run.answers.length = attemptLimit policy
  failed : ∃ last, run.answers.getLast? = some (.error last) ∧
    run.result = some (.error (limitError policy last))

theorem AtLimit.cons (h : AtLimit policy (attempts + 1) run) (error : ApiError)
    (delays : List Duration) :
    AtLimit policy attempts { run with answers := .error error :: run.answers, delays } where
  attempts := by
    have hattempts := h.attempts
    simp only [List.length_cons]
    omega
  failed := by
    obtain ⟨last, hlast, hres⟩ := h.failed
    refine ⟨last, ?_, hres⟩
    simp [List.getLast?_cons, hlast]

theorem sendFrom_final (hsum : attempts + 1 < 2 ^ 32) (hreq : request o e = (answer, e₁))
    (hfinal : IsFinal answer) :
    (sendFrom o policy attempts e).answers = [answer] := by
  rw [sendFrom, hreq]
  simp only [checkedAddU32, hsum, if_true]
  cases answer with
  | ok response => rfl
  | error error =>
    have hnot : ¬ error.isRetryable = true := by simpa [IsFinal] using hfinal
    simp [mayRetry, hnot]

theorem sendFrom_limit (hmax : policy.maxRetries.toNat + 1 < 2 ^ 32)
    (hattempts : attempts = min policy.maxRetries.toNat 32)
    (hreq : request o e = (.error error, e₁)) (hretry : error.isRetryable = true) :
    sendFrom o policy attempts e =
      ⟨some (.error (limitError policy error)), [.error error], [], e₁⟩ := by
  have hle : attempts ≤ policy.maxRetries.toNat := hattempts ▸ Nat.min_le_left _ _
  have hsum : attempts + 1 < 2 ^ 32 := by omega
  rw [sendFrom, hreq]
  simp only [checkedAddU32, hsum, if_true, mayRetry_within hretry hmax hle]
  by_cases hsmall : policy.maxRetries.toNat ≤ 32
  · have hsame : attempts = policy.maxRetries.toNat := by
      rw [hattempts]
      exact Nat.min_eq_left hsmall
    simp [limitError, hsmall, hsame]
  · have hsame : attempts = 32 := by
      rw [hattempts]
      exact Nat.min_eq_right (by omega)
    subst hsame
    have hmore : ¬ policy.maxRetries.toNat < 33 := by omega
    have hbackoff : backoffForAttempt policy 33 =
        .error (.backoffOverflow 33 policy.initialBackoff) := backoff_overflow policy (by omega)
    simp [limitError, hsmall, hmore, jitteredBackoffForAttempt, hbackoff]

theorem sendFrom_again (hfit : SleepsFit policy) (hmax : policy.maxRetries.toNat + 1 < 2 ^ 32)
    (hattempts : attempts < min policy.maxRetries.toNat 32)
    (hreq : request o e = (.error error, e₁)) (hretry : error.isRetryable = true) :
    ∃ delay e₂, sendFrom o policy attempts e =
      { sendFrom o policy (attempts + 1) e₂ with
        answers := .error error :: (sendFrom o policy (attempts + 1) e₂).answers
        delays := delay :: (sendFrom o policy (attempts + 1) e₂).delays } := by
  have hle : attempts + 1 ≤ policy.maxRetries.toNat := hattempts.trans_le (Nat.min_le_left _ _)
  have hbits : attempts + 1 ≤ 32 := hattempts.trans_le (Nat.min_le_right _ _)
  have hsum : attempts + 1 < 2 ^ 32 := by omega
  have hmore : ¬ policy.maxRetries.toNat < attempts + 1 := by omega
  obtain ⟨delay, e₂, hdelay⟩ := jittered_ok o hfit hle hbits e₁
  refine ⟨delay, o.sleep e₂ delay, ?_⟩
  rw [sendFrom, hreq]
  simp only [checkedAddU32, hsum, if_true,
    mayRetry_within hretry hmax (show attempts ≤ policy.maxRetries.toNat by omega), hmore,
    if_false, hdelay]

theorem request_cases (e : E) :
    ∃ e₁, (∃ answer, request o e = (answer, e₁) ∧ IsFinal answer) ∨
      ∃ error, request o e = (.error error, e₁) ∧ error.isRetryable = true := by
  rcases hreq : request o e with ⟨answer, e₁⟩
  refine ⟨e₁, ?_⟩
  cases answer with
  | ok response => exact .inl ⟨_, rfl, trivial⟩
  | error error =>
    by_cases hretry : error.isRetryable = true
    · exact .inr ⟨error, rfl, hretry⟩
    · exact .inl ⟨_, rfl, by simpa [IsFinal] using hretry⟩

theorem sendFrom_ends (hfit : SleepsFit policy) (hmax : policy.maxRetries.toNat + 1 < 2 ^ 32)
    (left attempts : Nat) (e : E) (hleft : attempts + left = min policy.maxRetries.toNat 32) :
    (∃ answer ∈ (sendFrom o policy attempts e).answers, IsFinal answer) ∨
      AtLimit policy attempts (sendFrom o policy attempts e) := by
  induction left generalizing attempts e with
  | zero =>
    obtain ⟨e₁, ⟨answer, hreq, hfinal⟩ | ⟨error, hreq, hretry⟩⟩ := request_cases o e
    · have hanswers : (sendFrom o policy attempts e).answers = [answer] :=
        sendFrom_final o (by omega) hreq hfinal
      exact .inl ⟨answer, by simp [hanswers], hfinal⟩
    · right
      rw [sendFrom_limit o hmax (by omega) hreq hretry]
      refine ⟨?_, error, rfl, rfl⟩
      simp only [attemptLimit, List.length_singleton]
      omega
  | succ left ih =>
    obtain ⟨e₁, ⟨answer, hreq, hfinal⟩ | ⟨error, hreq, hretry⟩⟩ := request_cases o e
    · have hanswers : (sendFrom o policy attempts e).answers = [answer] :=
        sendFrom_final o (by omega) hreq hfinal
      exact .inl ⟨answer, by simp [hanswers], hfinal⟩
    · have hless : attempts < min policy.maxRetries.toNat 32 := by omega
      obtain ⟨delay, e₂, hrun⟩ := sendFrom_again o hfit hmax hless hreq hretry
      rw [hrun]
      rcases ih (attempts + 1) e₂ (by omega) with ⟨answer, hanswer, hfinal⟩ | hlimit
      · exact .inl ⟨answer, List.mem_cons_of_mem _ hanswer, hfinal⟩
      · exact .inr (hlimit.cons error _)

/-- The provider fails each time, with an error to be retried. -/
def AlwaysFails : Prop :=
  ∀ e, ∃ error e₁, request o e = (.error error, e₁) ∧ error.isRetryable = true

theorem parts_of_sendFrom (policy : RetryPolicy) (attempts : Nat) (e : E) :
    (∀ answer ∈ (sendFrom o policy attempts e).answers, ∃ e₁ e₂, request o e₁ = (answer, e₂)) ∧
      ∀ delay ∈ (sendFrom o policy attempts e).delays,
        delay.nanos ≤ 2 * policy.maxBackoff.nanos := by
  induction attempts, e using sendFrom.induct o policy with
  | case1 attempts e hoverflow =>
    rw [sendFrom, hoverflow]
    simp
  | case2 attempts e next hnext response e₁ hreq =>
    rw [sendFrom, hnext, hreq]
    simpa using ⟨e, e₁, hreq⟩
  | case3 attempts e next hnext error e₁ hreq hretry =>
    rw [sendFrom, hnext, hreq]
    simpa [hretry] using ⟨e, e₁, hreq⟩
  | case4 attempts e next hnext error e₁ hreq hretry =>
    rw [sendFrom, hnext, hreq]
    simpa [hretry] using ⟨e, e₁, hreq⟩
  | case5 attempts e next hnext error e₁ hreq hretry hlimit =>
    rw [sendFrom, hnext, hreq]
    simpa [hretry, hlimit] using ⟨e, e₁, hreq⟩
  | case6 attempts e next hnext error e₁ hreq hretry hlimit overflow e₂ hbackoff =>
    rw [sendFrom, hnext, hreq]
    simpa [hretry, hlimit, hbackoff] using ⟨e, e₁, hreq⟩
  | case7 attempts e next hnext error e₁ hreq hretry hlimit e₂ hbackoff =>
    rw [sendFrom, hnext, hreq]
    simpa [hretry, hlimit, hbackoff] using ⟨e, e₁, hreq⟩
  | case8 attempts e next hnext error e₁ hreq hretry hlimit delay e₂ hbackoff ih =>
    rw [sendFrom, hnext, hreq]
    simp only [hretry, hlimit, if_false, hbackoff, List.forall_mem_cons]
    exact ⟨⟨⟨e, e₁, hreq⟩, ih.1⟩, jittered_le o hbackoff, ih.2⟩

theorem sendWithRetry_limit (hfails : AlwaysFails o) (hfit : SleepsFit policy)
    (hmax : policy.maxRetries.toNat + 1 < 2 ^ 32) (e : E) :
    AtLimit policy 0 (sendWithRetry o policy e) := by
  rcases sendFrom_ends o hfit hmax _ 0 e (Nat.zero_add _) with ⟨answer, hanswer, hfinal⟩ | hlimit
  · obtain ⟨e₁, e₂, hreq⟩ :=
      (parts_of_sendFrom o policy 0 e).1 answer hanswer
    obtain ⟨error, _, herror, hretry⟩ := hfails e₁
    rw [hreq] at herror
    obtain ⟨rfl, -⟩ := Prod.mk.inj herror
    rw [IsFinal, hretry] at hfinal
    cases hfinal
  · exact hlimit

/-- The outcome that is claimed for a provider that always fails. -/
def Exhausted (policy : RetryPolicy) (run : Sent E) : Prop :=
  run.answers.length = policy.maxRetries.toNat + 1 ∧
    ∃ last, run.answers.getLast? = some (.error last) ∧
      run.result = some (.error (.retriesExhausted (policy.maxRetries.toNat + 1) last))

/-- No backoff is left behind the 33rd attempt. -/
def BackoffOverflowed (policy : RetryPolicy) (run : Sent E) : Prop :=
  run.answers.length = 33 ∧
    run.result = some (.error (.backoffOverflow 33 policy.initialBackoff))

theorem AtLimit.exhausted (h : AtLimit policy 0 run) (hsmall : policy.maxRetries.toNat ≤ 32) :
    Exhausted policy run := by
  obtain ⟨last, hlast, hres⟩ := h.failed
  refine ⟨?_, last, hlast, ?_⟩
  · have hlen := h.attempts
    simp only [attemptLimit] at hlen
    omega
  · simpa [limitError, hsmall] using hres

theorem AtLimit.overflowed (h : AtLimit policy 0 run) (hlarge : 32 < policy.maxRetries.toNat) :
    BackoffOverflowed policy run := by
  obtain ⟨last, -, hres⟩ := h.failed
  refine ⟨?_, ?_⟩
  · have hlen := h.attempts
    simp only [attemptLimit] at hlen
    omega
  · have hnot : ¬ policy.maxRetries.toNat ≤ 32 := by omega
    simpa [limitError, hnot] using hres

end Sending

/-- What a retry policy does: with a provider that always fails, it is exhausted
behind `max_retries + 1` attempts, or the backoff overflows behind 33; whoever
answers, it stops at the first answer that ends it; and the backoffs grow up to the
largest one. -/
structure FollowsPolicy (policy : RetryPolicy) : Prop where
  exhausted : SleepsFit policy → policy.maxRetries.toNat ≤ 32 → ∀ (E : Type) (o : Outside E),
    AlwaysFails o → ∀ e, Exhausted policy (sendWithRetry o policy e)
  overflowed : SleepsFit policy → 32 < policy.maxRetries.toNat →
    policy.maxRetries.toNat + 1 < 2 ^ 32 → ∀ (E : Type) (o : Outside E),
      AlwaysFails o → ∀ e, BackoffOverflowed policy (sendWithRetry o policy e)
  stops : ∀ (E : Type) (o : Outside E) (e : E), StopsAtFinal (sendWithRetry o policy e)
  backoff : ∀ a b, a ≤ b → ∀ delay, backoffForAttempt policy b = .ok delay →
    (∃ earlier, backoffForAttempt policy a = .ok earlier ∧ earlier.nanos ≤ delay.nanos) ∧
      delay.nanos ≤ policy.maxBackoff.nanos

theorem send_with_retry_follows_policy (policy : RetryPolicy) : FollowsPolicy policy where
  exhausted hfit hsmall _ o hfails e :=
    (sendWithRetry_limit o hfails hfit (by omega) e).exhausted hsmall
  overflowed hfit hlarge hmax _ o hfails e :=
    (sendWithRetry_limit o hfails hfit hmax e).overflowed hlarge
  stops _ o e := sendFrom_stops o policy 0 e
  backoff _ _ hab _ h := backoff_mono hab h

/-- A provider that is overloaded each time, in a world without a state. -/
def overloaded : Outside Unit where
  sendRawRequest e := (.ok ⟨503, none, "overloaded"⟩, e)
  parseError _ := none
  rawNanos e := (0, e)
  tick e := (0, e)
  sleep e _ := e

/-- With 33 retries the backoff overflows before the last one. -/
theorem thirty_three_retries_not_exhausted :
    ¬ ∀ (policy : RetryPolicy) (E : Type) (o : Outside E),
      policy.initialBackoff.nanos ≤ policy.maxBackoff.nanos → AlwaysFails o →
        ∀ e, Exhausted policy (sendWithRetry o policy e) := by
  intro hclaim
  have hfails : AlwaysFails overloaded := fun e => ⟨_, e, rfl, rfl⟩
  have hfit : SleepsFit ⟨33, .zero, .zero⟩ := by
    intro attempt _ delay h
    have hmax := (backoff_mono le_rfl h).2
    simp only [Duration.zero] at hmax
    have hzero : delay.nanos = 0 := by omega
    simp [hzero]
  have hover := (sendWithRetry_limit overloaded hfails hfit (by decide) ()).overflowed (by decide)
  have hexhausted := hclaim ⟨33, .zero, .zero⟩ Unit overloaded le_rfl hfails ()
  have hlen := hexhausted.1.symm.trans hover.1
  exact absurd hlen (by decide)

end DbClinic.Api.Retry
