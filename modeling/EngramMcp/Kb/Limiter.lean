import EngramMcp.Infra.HashMap
import EngramMcp.Infra.TokenBucket
import EngramMcp.OAuth.Scope
import Mathlib.Data.Rat.Defs
import Mathlib.Algebra.Order.Ring.Rat

/-!
# Rate limits

`RateLimiter` and `WriteRateLimiter` of `auth.rs`: a token bucket for each credential, and one for
the writes of the whole server. Their floating-point numbers are rational here, and so are the
readings of the clock, in seconds.

A call reads the clock before it takes the lock. So a sequence of calls is in the order in which
they took the lock, and the readings it brings may be in any order.

* `WriteRateLimiter.admitted_eq` — the write budget admits what its bucket admits
* `RateLimiter.AgreeOn.decisions` — a credential gets its answers whatever the others do
* `RateLimiter.admitted_eq_of_lookup_none` — it is admitted what a bucket of its own admits
-/

namespace EngramMcp

open Infra

/-- `Bucket`. -/
abbrev Bucket := TokenBucket ℚ

/-- `RateLimitError`. -/
inductive RateLimitError
  | rateLimitExceeded
  deriving DecidableEq

/-- `WriteRateLimiter`. -/
structure WriteRateLimiter where
  capacity : ℚ
  refillPerSecond : ℚ
  bucket : Bucket

namespace WriteRateLimiter

/-- `WriteRateLimiter::new`, given the reading of the clock. -/
def new (writesPerHour : Nat) (now : ℚ) : WriteRateLimiter where
  capacity := writesPerHour
  refillPerSecond := writesPerHour / 3600
  bucket := .full writesPerHour now

/-- `WriteRateLimiter::check`, given the reading of the clock. -/
def check (limiter : WriteRateLimiter) (now : ℚ) :
    WriteRateLimiter × Except RateLimitError Unit :=
  let (bucket, taken) := limiter.bucket.take limiter.capacity limiter.refillPerSecond now
  ({ limiter with bucket }, if taken then .ok () else .error .rateLimitExceeded)

/-- The times of the calls of `check` that are admitted, in a sequence of calls. -/
def admitted (limiter : WriteRateLimiter) : List ℚ → List ℚ
  | [] => []
  | now :: rest =>
    match limiter.check now with
    | (limiter', .ok ()) => now :: limiter'.admitted rest
    | (limiter', .error _) => limiter'.admitted rest

/-- A call is admitted exactly if the bucket has a token. -/
theorem check_eq {limiter : WriteRateLimiter} {now : ℚ} {bucket : Bucket} {taken : Bool}
    (h : limiter.bucket.take limiter.capacity limiter.refillPerSecond now = (bucket, taken)) :
    limiter.check now
      = ({ limiter with bucket }, if taken then .ok () else .error .rateLimitExceeded) := by
  unfold check
  rw [h]

/-- The limiter admits what its bucket admits. -/
theorem admitted_eq (limiter : WriteRateLimiter) (times : List ℚ) : limiter.admitted times
    = limiter.bucket.admitted limiter.capacity limiter.refillPerSecond times := by
  induction times generalizing limiter with
  | nil => rfl
  | cons now rest ih =>
    show (match limiter.check now with
      | (limiter', .ok ()) => now :: limiter'.admitted rest
      | (limiter', .error _) => limiter'.admitted rest) = _
    unfold TokenBucket.admitted
    rcases limiter.bucket.take_cases limiter.capacity limiter.refillPerSecond now with
      ⟨_, htake⟩ | ⟨_, htake⟩
    · rw [check_eq htake, htake]
      exact ih _
    · rw [check_eq htake, htake]
      exact congrArg (now :: ·) (ih _)

/-- Each call is admitted or not, and leaves its limiter to the next. -/
theorem admitted_cons (limiter : WriteRateLimiter) (now : ℚ) (times : List ℚ) :
    limiter.admitted (now :: times) = (if (limiter.check now).2.isOk then [now] else [])
      ++ (limiter.check now).1.admitted times := by
  show (match limiter.check now with
    | (limiter', .ok ()) => now :: limiter'.admitted times
    | (limiter', .error _) => limiter'.admitted times) = _
  generalize limiter.check now = answer
  obtain ⟨limiter', ⟨⟨⟩⟩ | ⟨⟨⟩⟩⟩ := answer
  · rfl
  · rfl

end WriteRateLimiter

/-- What a sequence of calls refills, before the capacity caps it. -/
def WriteRateLimiter.totalRefill (limiter : WriteRateLimiter) : List ℚ → ℚ
  | [] => 0
  | now :: rest =>
    limiter.bucket.refill limiter.refillPerSecond now + (limiter.check now).1.totalRefill rest

theorem WriteRateLimiter.totalRefill_eq (limiter : WriteRateLimiter) (times : List ℚ) :
    limiter.totalRefill times
      = limiter.bucket.totalRefill limiter.capacity limiter.refillPerSecond times := by
  induction times generalizing limiter with
  | nil => rfl
  | cons now rest ih => exact congrArg (_ + ·) (ih _)

/-- `CredentialId`. -/
inductive CredentialId
  | keyA
  | keyB
  | oauth (fingerprint : Vector UInt8 8)
  deriving DecidableEq

/-- `AuthSubject`. -/
structure AuthSubject where
  credentialId : CredentialId
  scope : AccessScope

/-- `RateLimiter`. -/
structure RateLimiter where
  capacity : ℚ
  refillPerSecond : ℚ
  buckets : HashMap CredentialId Bucket

namespace RateLimiter

/-- `RateLimiter::new`. -/
def new (requestsPerMinute burst : Nat) : RateLimiter where
  capacity := burst
  refillPerSecond := requestsPerMinute / 60
  buckets := ∅

/-- The bucket of a credential: a full one, made now, if it has none. -/
def bucketOf (limiter : RateLimiter) (credential : CredentialId) (now : ℚ) : Bucket :=
  (limiter.buckets.lookup credential).getD (.full limiter.capacity now)

/-- `RateLimiter::check`, given the reading of the clock. -/
def check (limiter : RateLimiter) (subject : AuthSubject) (now : ℚ) :
    RateLimiter × Except RateLimitError Unit :=
  let bucket := limiter.bucketOf subject.credentialId now
  let (bucket, taken) := bucket.take limiter.capacity limiter.refillPerSecond now
  ({ limiter with buckets := limiter.buckets.insert subject.credentialId bucket },
    if taken then .ok () else .error .rateLimitExceeded)

/-- A call of `check`: who makes it, and the reading of the clock it brings. -/
structure Call where
  subject : AuthSubject
  now : ℚ

/-- The answers to a sequence of calls, each with its call. -/
def decisions (limiter : RateLimiter) : List Call → List (Call × Except RateLimitError Unit)
  | [] => []
  | call :: rest =>
    (call, (limiter.check call.subject call.now).2) ::
      (limiter.check call.subject call.now).1.decisions rest

/-- Whether a call is made with a credential. -/
def isOf (credential : CredentialId) (call : Call) : Bool :=
  decide (call.subject.credentialId = credential)

/-- What a sequence of calls refills in the bucket of a credential, before the capacity caps it. -/
def totalRefill (limiter : RateLimiter) (credential : CredentialId) : List Call → ℚ
  | [] => 0
  | call :: rest =>
    (if isOf credential call then
      (limiter.bucketOf credential call.now).refill limiter.refillPerSecond call.now else 0) +
      (limiter.check call.subject call.now).1.totalRefill credential rest

/-- The readings of the calls that are made with a credential. -/
def readings (credential : CredentialId) (calls : List Call) : List ℚ :=
  (calls.filter (isOf credential)).map Call.now

/-- The readings of those that are admitted. -/
def admitted (limiter : RateLimiter) (credential : CredentialId) (calls : List Call) : List ℚ :=
  ((limiter.decisions calls).filter fun decision =>
    isOf credential decision.1 && decision.2.isOk).map fun decision => decision.1.now

/-! ## One credential among others -/

/-- Two limiters with the same settings and the same bucket for a credential. -/
structure AgreeOn (credential : CredentialId) (a b : RateLimiter) : Prop where
  capacity : a.capacity = b.capacity
  refillPerSecond : a.refillPerSecond = b.refillPerSecond
  lookup : a.buckets.lookup credential = b.buckets.lookup credential

/-- What a call with a credential leaves in its bucket. -/
theorem lookup_check {limiter : RateLimiter} {subject : AuthSubject} {credential : CredentialId}
    (hs : subject.credentialId = credential) (now : ℚ) :
    (limiter.check subject now).1.buckets.lookup credential
      = some ((limiter.bucketOf credential now).take limiter.capacity limiter.refillPerSecond
        now).1 := by
  subst hs
  show (limiter.buckets.insert _ _).lookup _ = _
  rw [AList.lookup_insert]
  rfl

/-- A call leaves the buckets of the other credentials alone. -/
theorem lookup_check_of_ne {limiter : RateLimiter} {subject : AuthSubject}
    {credential : CredentialId} (hs : subject.credentialId ≠ credential) (now : ℚ) :
    (limiter.check subject now).1.buckets.lookup credential
      = limiter.buckets.lookup credential := by
  show (limiter.buckets.insert _ _).lookup _ = _
  rw [AList.lookup_insert_ne (Ne.symm hs)]

/-- A call is admitted exactly if the bucket of its credential has a token. -/
theorem isOk_check {limiter : RateLimiter} {subject : AuthSubject} {credential : CredentialId}
    (hs : subject.credentialId = credential) (now : ℚ) :
    (limiter.check subject now).2.isOk = ((limiter.bucketOf credential now).take limiter.capacity
      limiter.refillPerSecond now).2 := by
  subst hs
  show (if (TokenBucket.take _ _ _ _).2 then (.ok () : Except RateLimitError Unit)
    else .error .rateLimitExceeded).isOk = _
  cases (TokenBucket.take (limiter.bucketOf subject.credentialId now) limiter.capacity
    limiter.refillPerSecond now).2 <;> rfl

theorem AgreeOn.bucketOf {credential : CredentialId} {a b : RateLimiter}
    (h : AgreeOn credential a b) (now : ℚ) :
    a.bucketOf credential now = b.bucketOf credential now := by
  unfold RateLimiter.bucketOf
  rw [h.capacity, h.lookup]

/-- The same call gets the same answer, and leaves the limiters in agreement. -/
theorem AgreeOn.check {credential : CredentialId} {a b : RateLimiter}
    (h : AgreeOn credential a b) {subject : AuthSubject} (hs : subject.credentialId = credential)
    (now : ℚ) :
    (a.check subject now).2 = (b.check subject now).2 ∧
      AgreeOn credential (a.check subject now).1 (b.check subject now).1 := by
  subst hs
  have htake : (a.bucketOf subject.credentialId now).take a.capacity a.refillPerSecond now
      = (b.bucketOf subject.credentialId now).take b.capacity b.refillPerSecond now := by
    rw [h.bucketOf, h.capacity, h.refillPerSecond]
  refine ⟨?_, h.capacity, h.refillPerSecond, ?_⟩
  · exact congrArg (fun r : Bucket × Bool => if r.2 then (.ok () : Except RateLimitError Unit)
      else .error .rateLimitExceeded) htake
  · rw [lookup_check rfl, lookup_check rfl, htake]

/-- A call with another credential makes no difference. -/
theorem AgreeOn.check_other {credential : CredentialId} {a b : RateLimiter}
    (h : AgreeOn credential a b) {subject : AuthSubject} (hs : subject.credentialId ≠ credential)
    (now : ℚ) : AgreeOn credential (a.check subject now).1 b where
  capacity := h.capacity
  refillPerSecond := h.refillPerSecond
  lookup := (lookup_check_of_ne hs now).trans h.lookup

/-- The answers to one credential do not depend on the calls of the others. -/
theorem AgreeOn.decisions {credential : CredentialId} {a b : RateLimiter}
    (h : AgreeOn credential a b) (calls : List Call) :
    (a.decisions calls).filter (fun decision => isOf credential decision.1)
      = b.decisions (calls.filter (isOf credential)) := by
  induction calls generalizing a b with
  | nil => rfl
  | cons call rest ih =>
    by_cases hs : call.subject.credentialId = credential
    · obtain ⟨hanswer, hnext⟩ := h.check hs call.now
      have hof : isOf credential call = true := decide_eq_true hs
      rw [RateLimiter.decisions, List.filter_cons, List.filter_cons, if_pos hof, if_pos hof,
        ih hnext, RateLimiter.decisions, hanswer]
    · have hof : ¬isOf credential call = true := fun hc => hs (of_decide_eq_true hc)
      rw [RateLimiter.decisions, List.filter_cons, List.filter_cons, if_neg hof, if_neg hof]
      exact ih (h.check_other hs call.now)

/-! ## The bucket of a credential -/

theorem bucketOf_eq_of_lookup {limiter : RateLimiter} {credential : CredentialId} {bucket : Bucket}
    (h : limiter.buckets.lookup credential = some bucket) (now : ℚ) :
    limiter.bucketOf credential now = bucket := by
  unfold bucketOf
  rw [h]
  rfl

theorem bucketOf_eq_of_lookup_none {limiter : RateLimiter} {credential : CredentialId}
    (h : limiter.buckets.lookup credential = none) (now : ℚ) :
    limiter.bucketOf credential now = .full limiter.capacity now := by
  unfold bucketOf
  rw [h]
  rfl

/-- A credential with a bucket refills this bucket. -/
theorem totalRefill_eq_of_lookup {limiter : RateLimiter} {credential : CredentialId}
    {bucket : Bucket} (h : limiter.buckets.lookup credential = some bucket) (calls : List Call) :
    limiter.totalRefill credential calls = bucket.totalRefill limiter.capacity
      limiter.refillPerSecond (readings credential calls) := by
  induction calls generalizing limiter bucket with
  | nil => rfl
  | cons call rest ih =>
    unfold readings totalRefill
    by_cases hs : call.subject.credentialId = credential
    · have hof : isOf credential call = true := decide_eq_true hs
      rw [List.filter_cons, if_pos hof, if_pos hof, bucketOf_eq_of_lookup h, ih (lookup_check hs _),
        bucketOf_eq_of_lookup h]
      rfl
    · have hof : ¬isOf credential call = true := fun hc => hs (of_decide_eq_true hc)
      rw [List.filter_cons, if_neg hof, if_neg hof, zero_add]
      exact ih ((lookup_check_of_ne hs _).trans h)

/-- A credential without one refills the bucket that its first call makes. -/
theorem totalRefill_eq_of_lookup_none {limiter : RateLimiter} {credential : CredentialId}
    (h : limiter.buckets.lookup credential = none) (calls : List Call) :
    limiter.totalRefill credential calls =
      match readings credential calls with
      | [] => 0
      | now :: rest => TokenBucket.totalRefill limiter.capacity limiter.refillPerSecond
          (.full limiter.capacity now) (now :: rest) := by
  induction calls generalizing limiter with
  | nil => rfl
  | cons call rest ih =>
    unfold readings totalRefill
    by_cases hs : call.subject.credentialId = credential
    · have hof : isOf credential call = true := decide_eq_true hs
      rw [List.filter_cons, if_pos hof, if_pos hof, totalRefill_eq_of_lookup (lookup_check hs _),
        bucketOf_eq_of_lookup_none h]
      rfl
    · have hof : ¬isOf credential call = true := fun hc => hs (of_decide_eq_true hc)
      rw [List.filter_cons, if_neg hof, if_neg hof, zero_add]
      exact ih ((lookup_check_of_ne hs _).trans h)

theorem admitted_cons (limiter : RateLimiter) (credential : CredentialId) (call : Call)
    (rest : List Call) :
    limiter.admitted credential (call :: rest) =
      if isOf credential call && (limiter.check call.subject call.now).2.isOk then
        call.now :: (limiter.check call.subject call.now).1.admitted credential rest
      else (limiter.check call.subject call.now).1.admitted credential rest := by
  unfold admitted
  rw [decisions, List.filter_cons]
  split <;> rfl

/-- A credential with a bucket is admitted what this bucket admits. -/
theorem admitted_eq_of_lookup {limiter : RateLimiter} {credential : CredentialId}
    {bucket : Bucket} (h : limiter.buckets.lookup credential = some bucket) (calls : List Call) :
    limiter.admitted credential calls = bucket.admitted limiter.capacity limiter.refillPerSecond
      (readings credential calls) := by
  induction calls generalizing limiter bucket with
  | nil => rfl
  | cons call rest ih =>
    rw [admitted_cons]
    unfold readings
    by_cases hs : call.subject.credentialId = credential
    · have hof : isOf credential call = true := decide_eq_true hs
      rw [List.filter_cons, if_pos hof, hof, Bool.true_and, isOk_check hs, ih (lookup_check hs _),
        bucketOf_eq_of_lookup h]
      rfl
    · have hof : isOf credential call = false := decide_eq_false hs
      rw [List.filter_cons, hof, Bool.false_and, if_neg Bool.false_ne_true,
        if_neg Bool.false_ne_true]
      exact ih ((lookup_check_of_ne hs _).trans h)

/-- A credential without one is admitted what the bucket that its first call makes admits. -/
theorem admitted_eq_of_lookup_none {limiter : RateLimiter} {credential : CredentialId}
    (h : limiter.buckets.lookup credential = none) (calls : List Call) :
    limiter.admitted credential calls =
      match readings credential calls with
      | [] => []
      | now :: rest => TokenBucket.admitted limiter.capacity limiter.refillPerSecond
          (.full limiter.capacity now) (now :: rest) := by
  induction calls generalizing limiter with
  | nil => rfl
  | cons call rest ih =>
    rw [admitted_cons]
    unfold readings
    by_cases hs : call.subject.credentialId = credential
    · have hof : isOf credential call = true := decide_eq_true hs
      rw [List.filter_cons, if_pos hof, hof, Bool.true_and, isOk_check hs,
        admitted_eq_of_lookup (lookup_check hs _), bucketOf_eq_of_lookup_none h]
      rfl
    · have hof : isOf credential call = false := decide_eq_false hs
      rw [List.filter_cons, hof, Bool.false_and, if_neg Bool.false_ne_true,
        if_neg Bool.false_ne_true]
      exact ih ((lookup_check_of_ne hs _).trans h)

end RateLimiter

end EngramMcp
