import DbClinic.Api.SseParser

/-!
A request that is sent again when it fails: the loop over the attempts, the delay
before the next one, and its jitter. The network, the wall clock and the counter
of the jitter are a state with an answer for each call. The source is built with
overflow checks: a sum that does not fit ends the request without a result.
-/

namespace DbClinic.Api.Retry

/-- The nanoseconds of `Duration::MAX`. -/
def MAX_NANOS : Nat := (2 ^ 64 - 1) * 10 ^ 9 + 999999999

structure Duration where
  nanos : Nat
  fits : nanos ≤ MAX_NANOS
  deriving DecidableEq

namespace Duration

def zero : Duration := ⟨0, Nat.zero_le _⟩

def checkedMul (d : Duration) (factor : Nat) : Option Duration :=
  if h : d.nanos * factor ≤ MAX_NANOS then some ⟨d.nanos * factor, h⟩ else none

/-- The sum of two durations; none where the source panics. -/
def checkedAdd (d other : Duration) : Option Duration :=
  if h : d.nanos + other.nanos ≤ MAX_NANOS then some ⟨d.nanos + other.nanos, h⟩ else none

def min (d other : Duration) : Duration := if d.nanos ≤ other.nanos then d else other

/-- `Duration::from_nanos`. -/
def fromNanos (nanos : UInt64) : Duration where
  nanos := nanos.toNat
  fits := by
    have h := nanos.toNat_lt
    unfold MAX_NANOS
    omega

theorem min_nanos (d other : Duration) : (d.min other).nanos = Min.min d.nanos other.nanos := by
  unfold min
  split
  · rename_i h
    exact (Nat.min_eq_left h).symm
  · rename_i h
    exact (Nat.min_eq_right (by omega)).symm

theorem checkedAdd_nanos {d other sum : Duration} (h : d.checkedAdd other = some sum) :
    sum.nanos = d.nanos + other.nanos := by
  unfold checkedAdd at h
  split at h
  · cases h
    rfl
  · cases h

end Duration

/-- What is asked of an error of `reqwest`. -/
structure TransportError where
  isConnect : Bool
  isTimeout : Bool
  isRequest : Bool
  message : String
  deriving DecidableEq

inductive ApiError where
  | missingCredentials (provider : String) (envVars : List String) (hint : Option String)
  | contextWindowExceeded (model : String) (estimatedInputTokens requestedOutputTokens
      estimatedTotalTokens contextWindowTokens : Nat)
  | expiredOAuthToken
  | auth (message : String)
  | invalidApiKeyEnv (error : String)
  | http (error : TransportError)
  | io (error : String)
  | json (provider model bodySnippet : String) (source : SerdeError)
  | api (status : Nat) (errorType message requestId : Option String) (body : String)
      (retryable : Bool) (suggestedAction : Option String)
  | retriesExhausted (attempts : Nat) (lastError : ApiError)
  | invalidSseFrame (message : String)
  | backoffOverflow (attempt : Nat) (baseDelay : Duration)
  | requestBodySizeExceeded (estimatedBytes maxBytes : Nat) (provider : String)

def ApiError.isRetryable : ApiError → Bool
  | http error => error.isConnect || error.isTimeout || error.isRequest
  | api _ _ _ _ _ retryable _ => retryable
  | retriesExhausted _ lastError => lastError.isRetryable
  | _ => false

structure Response where
  status : Nat
  requestId : Option String
  body : String
  deriving DecidableEq

def isRetryableStatus (status : Nat) : Bool := [408, 409, 429, 500, 502, 503, 504].contains status

/-- `expect_success`; the type and the message of the error are read from the body. -/
def expectSuccess (parse : String → Option (Option String × Option String)) (response : Response) :
    Except ApiError Response :=
  if 200 ≤ response.status ∧ response.status < 300 then .ok response
  else
    let parsed := parse response.body
    .error (.api response.status (parsed.bind Prod.fst) (parsed.bind Prod.snd) response.requestId
      response.body (isRetryableStatus response.status) (suggestedActionForStatus response.status))

/-- What lies outside: the network, with the checks made before a request is sent,
and the two sources of the jitter. -/
structure Outside (E : Type) where
  sendRawRequest : E → Except ApiError Response × E
  parseError : String → Option (Option String × Option String)
  rawNanos : E → UInt64 × E
  tick : E → UInt64 × E
  sleep : E → Duration → E

structure RetryPolicy where
  maxRetries : UInt32
  initialBackoff : Duration
  maxBackoff : Duration

/-- `1_u32.checked_shl`. -/
def checkedShlOne (bits : Nat) : Option Nat := if bits < 32 then some (2 ^ bits) else none

def backoffForAttempt (policy : RetryPolicy) (attempt : Nat) : Except ApiError Duration :=
  match checkedShlOne (attempt - 1) with
  | none => .error (.backoffOverflow attempt policy.initialBackoff)
  | some multiplier =>
    .ok (((policy.initialBackoff.checkedMul multiplier).map (·.min policy.maxBackoff)).getD
      policy.maxBackoff)

/-- The finalizer of splitmix64. -/
def mix (rawNanos tick : UInt64) : UInt64 :=
  let mixed := rawNanos + tick + 0x9E3779B97F4A7C15
  let mixed := (mixed ^^^ (mixed >>> 30)) * 0xBF58476D1CE4E5B9
  let mixed := (mixed ^^^ (mixed >>> 27)) * 0x94D049BB133111EB
  mixed ^^^ (mixed >>> 31)

/-- The nanoseconds of a duration, as far as 64 bits go. -/
def baseNanos (base : Duration) : UInt64 :=
  if base.nanos < 2 ^ 64 then UInt64.ofNat base.nanos else UInt64.ofNat (2 ^ 64 - 1)

def saturatingSucc (n : UInt64) : UInt64 := if n = UInt64.ofNat (2 ^ 64 - 1) then n else n + 1

section Sending

variable {E : Type} (o : Outside E)

def jitterForBase (base : Duration) (e : E) : Duration × E :=
  if baseNanos base = 0 then (.zero, e)
  else
    let (rawNanos, e₁) := o.rawNanos e
    let (tick, e₂) := o.tick e₁
    (.fromNanos (mix rawNanos tick % saturatingSucc (baseNanos base)), e₂)

/-- The backoff of an attempt and its jitter; none where their sum does not fit. -/
def jitteredBackoffForAttempt (policy : RetryPolicy) (attempt : Nat) (e : E) :
    Except ApiError (Option Duration) × E :=
  match backoffForAttempt policy attempt with
  | .error error => (.error error, e)
  | .ok base =>
    let (jitter, e₁) := jitterForBase o base e
    (.ok (base.checkedAdd jitter), e₁)

/-- One request, with the check of its status. -/
def request (e : E) : Except ApiError Response × E :=
  match o.sendRawRequest e with
  | (.error error, e₁) => (.error error, e₁)
  | (.ok response, e₁) => (expectSuccess o.parseError response, e₁)

/-- What a request ended with: its result, none after an overflow; the answers it
got, one for each attempt; and the delays it slept. -/
structure Sent (E : Type) where
  result : Option (Except ApiError Response)
  answers : List (Except ApiError Response)
  delays : List Duration
  outside : E

def checkedAddU32 (a b : Nat) : Option Nat := if a + b < 2 ^ 32 then some (a + b) else none

/-- The guard of the loop. The sum is looked at only for an error that is retryable. -/
def mayRetry (policy : RetryPolicy) (attempts : Nat) (error : ApiError) : Option Bool :=
  if error.isRetryable then
    (checkedAddU32 policy.maxRetries.toNat 1).map fun limit => attempts ≤ limit
  else some false

/-- The loop of `send_with_retry`, after `attempts` attempts. -/
def sendFrom (policy : RetryPolicy) (attempts : Nat) (e : E) : Sent E :=
  match checkedAddU32 attempts 1 with
  | none => ⟨none, [], [], e⟩
  | some _ =>
    match request o e with
    | (.ok response, e₁) => ⟨some (.ok response), [.ok response], [], e₁⟩
    | (.error error, e₁) =>
      match mayRetry policy (attempts + 1) error with
      | none => ⟨none, [.error error], [], e₁⟩
      | some false => ⟨some (.error error), [.error error], [], e₁⟩
      | some true =>
        if policy.maxRetries.toNat < attempts + 1 then
          ⟨some (.error (.retriesExhausted (attempts + 1) error)), [.error error], [], e₁⟩
        else
          match jitteredBackoffForAttempt o policy (attempts + 1) e₁ with
          | (.error overflow, e₂) => ⟨some (.error overflow), [.error error], [], e₂⟩
          | (.ok none, e₂) => ⟨none, [.error error], [], e₂⟩
          | (.ok (some delay), e₂) =>
            let later := sendFrom policy (attempts + 1) (o.sleep e₂ delay)
            { later with
              answers := .error error :: later.answers
              delays := delay :: later.delays }
termination_by policy.maxRetries.toNat - attempts

def sendWithRetry (policy : RetryPolicy) (e : E) : Sent E := sendFrom o policy 0 e

end Sending

end DbClinic.Api.Retry
