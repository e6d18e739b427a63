import Synvoid.Framework.Checked

/-! # The token bucket of the IPC rate limiter

    Model of `TokenBucket` (`synvoid-ipc/src/ipc_rate_limit.rs`), with times in
    milliseconds. Each refill adds whole tokens and, if there are any, starts to
    count anew at its own time, so the fraction of a token that was earned
    besides them is lost. The bucket never admits too much for this, but how
    much it refills depends on when it is asked (`polling_bound_and_loss`).

    A sum or product that does not fit into 64 bits panics in a build with
    overflow checks and wraps around in one without; `checks` says which one it
    is.
-/

namespace Synvoid.Ipc

open Synvoid.Framework

/-! ## Section 1: The bucket -/

structure TokenBucket where
  tokens : UInt64
  maxTokens : UInt64
  refillRate : UInt64
  lastRefill : Nat
  deriving DecidableEq

structure RateLimitExceeded where
  workerId : UInt64
  limit : UInt64
  deriving DecidableEq

/-- A result of `u64` arithmetic. -/
def narrow64 (checks : Bool) (n : Nat) : Checked Nat :=
  if n < 2 ^ 64 then .ok n
  else if checks then .error (.overflow n 64)
  else .ok (n % 2 ^ 64)

/-- `saturating_add` and `saturating_mul` of `u64`. -/
def saturate64 (n : Nat) : Nat := min n (2 ^ 64 - 1)

/-- The whole tokens of a time at a rate. -/
def earnedTicks (checks : Bool) (rate : UInt64) (elapsed : Nat) : Checked Nat := do
  let elapsedSecs := elapsed / 1000
  let elapsedFractionalMs := elapsed % 1000
  let fraction ← narrow64 checks (elapsedFractionalMs * rate.toNat)
  return saturate64 (saturate64 (elapsedSecs * rate.toNat) + fraction / 1000)

namespace TokenBucket

def new (maxTokens refillRate : UInt64) (now : Nat) : TokenBucket :=
  ⟨maxTokens, maxTokens, refillRate, now⟩

variable (checks : Bool) (bucket : TokenBucket)

def refill (now : Nat) : Checked TokenBucket := do
  let ticks ← earnedTicks checks bucket.refillRate (now - bucket.lastRefill)
  if ticks > 0 then do
    let sum ← narrow64 checks (bucket.tokens.toNat + ticks)
    return { bucket with
      tokens := UInt64.ofNat (min sum bucket.maxTokens.toNat)
      lastRefill := now }
  else return bucket

def consume (now : Nat) (amount : UInt64) :
    Checked (TokenBucket × Except RateLimitExceeded Unit) := do
  let bucket ← bucket.refill checks now
  if bucket.tokens ≥ amount then
    return ({ bucket with tokens := bucket.tokens - amount }, .ok ())
  else return (bucket, .error ⟨0, bucket.maxTokens⟩)

/-- Refills at one time after the other. -/
def refillAll : TokenBucket → List Nat → Checked TokenBucket
  | bucket, [] => return bucket
  | bucket, now :: times => do
      let bucket ← bucket.refill checks now
      refillAll bucket times

end TokenBucket

/-- The calls of a run. -/
inductive BucketCall where
  | refill
  | consume (amount : UInt64)

/-- One call; the number of messages that it admits. -/
def BucketCall.run (checks : Bool) (bucket : TokenBucket) (now : Nat) :
    BucketCall → Checked (TokenBucket × Nat)
  | .refill => do
      let bucket ← bucket.refill checks now
      return (bucket, 0)
  | .consume amount => do
      let (bucket, result) ← bucket.consume checks now amount
      return (bucket, if result = .ok () then amount.toNat else 0)

/-- A run, and how much it admits. -/
def runCalls (checks : Bool) : TokenBucket → List (Nat × BucketCall) → Checked (TokenBucket × Nat)
  | bucket, [] => return (bucket, 0)
  | bucket, (now, call) :: calls => do
      let (bucket, admitted) ← call.run checks bucket now
      let (bucket, more) ← runCalls checks bucket calls
      return (bucket, admitted + more)

/-! ## Section 2: What a refill adds -/

theorem narrow64_le {checks : Bool} {n m : Nat} (h : narrow64 checks n = .ok m) : m ≤ n := by
  unfold narrow64 at h
  split_ifs at h
  · exact Nat.le_of_eq (Except.ok.inj h).symm
  · rw [← Except.ok.inj h]
    exact Nat.mod_le _ _

theorem narrow64_of_lt {checks : Bool} {n : Nat} (h : n < 2 ^ 64) : narrow64 checks n = .ok n :=
  if_pos h

theorem lt_of_narrow64_checks {n m : Nat} (h : narrow64 true n = .ok m) : n < 2 ^ 64 := by
  unfold narrow64 at h
  split_ifs at h with hlt hchecks
  · exact hlt
  · exact absurd rfl hchecks

/-- Seconds and milliseconds apart earn what they earn together. -/
theorem ticks_split (rate elapsed : Nat) :
    elapsed / 1000 * rate + elapsed % 1000 * rate / 1000 = rate * elapsed / 1000 := by
  have hwhole : rate * elapsed = 1000 * (elapsed / 1000 * rate) + elapsed % 1000 * rate := by
    conv_lhs => rw [← Nat.div_add_mod elapsed 1000]
    ring
  rw [hwhole, Nat.mul_add_div (by decide)]

theorem earnedTicks_le {checks : Bool} {rate : UInt64} {elapsed n : Nat}
    (h : earnedTicks checks rate elapsed = .ok n) : n ≤ rate.toNat * elapsed / 1000 := by
  obtain ⟨fraction, hfraction, hn⟩ := bind_eq_ok h
  have hle := Nat.div_le_div_right (c := 1000) (narrow64_le hfraction)
  have hsplit := ticks_split rate.toNat elapsed
  rw [← Except.ok.inj hn, ← hsplit]
  unfold saturate64
  omega

/-- Without overflow the ticks are exact. -/
theorem earnedTicks_eq {checks : Bool} {rate : UInt64} {elapsed : Nat}
    (hproduct : elapsed % 1000 * rate.toNat < 2 ^ 64)
    (hearned : rate.toNat * elapsed / 1000 < 2 ^ 64) :
    earnedTicks checks rate elapsed = .ok (rate.toNat * elapsed / 1000) := by
  have hsplit := ticks_split rate.toNat elapsed
  have hsaturate : saturate64 (saturate64 (elapsed / 1000 * rate.toNat) +
      elapsed % 1000 * rate.toNat / 1000) = rate.toNat * elapsed / 1000 := by
    unfold saturate64
    omega
  unfold earnedTicks
  simp only
  rw [narrow64_of_lt hproduct, ok_bind, hsaturate]
  rfl

theorem toNat_ofNat_min (n : Nat) (limit : UInt64) :
    (UInt64.ofNat (min n limit.toNat)).toNat = min n limit.toNat := by
  have hlimit := limit.toNat_lt
  rw [UInt64.toNat_ofNat', Nat.mod_eq_of_lt (by omega)]

/-- The two outcomes of a refill: nothing earned, or some tokens and a new start. -/
theorem refill_cases {checks : Bool} {bucket after : TokenBucket} {now : Nat}
    (h : bucket.refill checks now = .ok after) :
    after = bucket ∨
      after.refillRate = bucket.refillRate ∧ after.lastRefill = now ∧
      after.tokens.toNat ≤
        bucket.tokens.toNat + bucket.refillRate.toNat * (now - bucket.lastRefill) / 1000 := by
  obtain ⟨ticks, hticks, h⟩ := bind_eq_ok h
  have hearned := earnedTicks_le hticks
  split at h
  · obtain ⟨sum, hsum, h⟩ := bind_eq_ok h
    have hle := narrow64_le hsum
    obtain rfl := Except.ok.inj h
    refine .inr ⟨rfl, rfl, ?_⟩
    rw [toNat_ofNat_min]
    omega
  · exact .inl (Except.ok.inj h).symm

/-! ## Section 3: The bound on admissions -/

/-- In thousandths of a token: what was admitted and what is left, against what the bucket started
    with and has earned. -/
structure Within (burst rate : UInt64) (start : Nat) (bucket : TokenBucket) (admitted : Nat) :
    Prop where
  rate_eq : bucket.refillRate = rate
  started : start ≤ bucket.lastRefill
  bound : 1000 * (admitted + bucket.tokens.toNat) ≤
    1000 * burst.toNat + rate.toNat * (bucket.lastRefill - start)

variable {checks : Bool} {burst rate : UInt64} {start now : Nat} {bucket after : TokenBucket}
  {admitted : Nat}

theorem Within.refill (h : Within burst rate start bucket admitted)
    (hnow : bucket.lastRefill ≤ now) (hrefill : bucket.refill checks now = .ok after) :
    Within burst rate start after admitted ∧ after.lastRefill ≤ now := by
  obtain ⟨hrate, hstart, hbound⟩ := h
  rcases refill_cases hrefill with rfl | ⟨hrate', hlast, htokens⟩
  · exact ⟨⟨hrate, hstart, hbound⟩, hnow⟩
  · rw [hrate] at htokens
    have hearned := Nat.div_mul_le_self (rate.toNat * (now - bucket.lastRefill)) 1000
    -- the time since the start is the time up to the last refill and the time since
    have hsum : rate.toNat * (now - start) =
        rate.toNat * (bucket.lastRefill - start) + rate.toNat * (now - bucket.lastRefill) := by
      rw [← Nat.mul_add]
      congr 1
      omega
    refine ⟨⟨hrate'.trans hrate, by omega, ?_⟩, Nat.le_of_eq hlast⟩
    rw [hlast, hsum]
    omega

theorem Within.run (h : Within burst rate start bucket admitted) (hnow : bucket.lastRefill ≤ now)
    {call : BucketCall} {more : Nat} (hrun : call.run checks bucket now = .ok (after, more)) :
    Within burst rate start after (admitted + more) ∧ after.lastRefill ≤ now := by
  cases call with
  | refill =>
    obtain ⟨refilled, hrefill, hrun⟩ := bind_eq_ok hrun
    obtain ⟨rfl, rfl⟩ := Prod.mk.inj (Except.ok.inj hrun)
    exact h.refill hnow hrefill
  | consume amount =>
    obtain ⟨⟨consumed, result⟩, hconsume, hrun⟩ := bind_eq_ok hrun
    obtain ⟨refilled, hrefill, hconsume⟩ := bind_eq_ok hconsume
    obtain ⟨⟨hrate, hstart, hbound⟩, hlast⟩ := h.refill hnow hrefill
    split at hconsume
    · next hamount =>
      obtain ⟨rfl, rfl⟩ := Prod.mk.inj (Except.ok.inj hconsume)
      obtain ⟨rfl, rfl⟩ := Prod.mk.inj (Except.ok.inj hrun)
      have hsub : (refilled.tokens - amount).toNat = refilled.tokens.toNat - amount.toNat :=
        UInt64.toNat_sub_of_le _ _ hamount
      have hle : amount.toNat ≤ refilled.tokens.toNat := UInt64.le_iff_toNat_le.mp hamount
      refine ⟨⟨hrate, hstart, ?_⟩, hlast⟩
      simp only [if_true, hsub]
      have htotal : admitted + amount.toNat + (refilled.tokens.toNat - amount.toNat) =
          admitted + refilled.tokens.toNat := by omega
      rw [htotal]
      exact hbound
    · obtain ⟨rfl, rfl⟩ := Prod.mk.inj (Except.ok.inj hconsume)
      obtain ⟨rfl, rfl⟩ := Prod.mk.inj (Except.ok.inj hrun)
      exact ⟨⟨hrate, hstart, hbound⟩, hlast⟩

/-- A whole run from any state within the bound. -/
theorem Within.runCalls {calls : List (Nat × BucketCall)}
    (h : Within burst rate start bucket admitted)
    (hsorted : (bucket.lastRefill :: calls.map Prod.fst).Pairwise (· ≤ ·)) {more : Nat}
    (hrun : runCalls checks bucket calls = .ok (after, more)) :
    Within burst rate start after (admitted + more) ∧
      after.lastRefill ≤ (calls.map Prod.fst).getLastD bucket.lastRefill := by
  induction calls generalizing bucket admitted more with
  | nil =>
    obtain ⟨rfl, rfl⟩ := Prod.mk.inj (Except.ok.inj hrun)
    exact ⟨h, Nat.le_refl _⟩
  | cons step calls ih =>
    obtain ⟨now, call⟩ := step
    obtain ⟨⟨next, first⟩, hcall, hrun⟩ := bind_eq_ok hrun
    obtain ⟨⟨last, rest⟩, hrest, hrun⟩ := bind_eq_ok hrun
    obtain ⟨rfl, rfl⟩ := Prod.mk.inj (Except.ok.inj hrun)
    rw [List.map_cons, List.pairwise_cons, List.pairwise_cons] at hsorted
    obtain ⟨hbefore, hnow, htimes⟩ := hsorted
    obtain ⟨hnext, hlast⟩ := h.run (hbefore now List.mem_cons_self) hcall
    have hsorted' : (next.lastRefill :: calls.map Prod.fst).Pairwise (· ≤ ·) :=
      List.pairwise_cons.mpr ⟨fun t ht => hlast.trans (hnow t ht), htimes⟩
    obtain ⟨hwithin, hle⟩ := ih hnext hsorted' hrest
    refine ⟨?_, ?_⟩
    · rw [← Nat.add_assoc]
      exact hwithin
    · rw [List.map_cons, List.getLastD_cons]
      cases hmap : calls.map Prod.fst with
      | nil =>
        rw [hmap] at hle
        exact hle.trans hlast
      | cons t ts =>
        rw [hmap, List.getLastD_cons] at hle
        rwa [List.getLastD_cons]

/-! ## Section 4: Polling -/

/-- Where the time is counted from after a refill at `now`. -/
def nextReference (rate reference now : Nat) : Nat :=
  if 1000 ≤ rate * (now - reference) then now else reference

/-- The times that the refills of a schedule are for. -/
def gaps (rate : Nat) : Nat → List Nat → List Nat
  | _, [] => []
  | reference, now :: times =>
    (now - reference) :: gaps rate (nextReference rate reference now) times

/-- Where the time is counted from after a schedule. -/
def lastReference (rate : Nat) : Nat → List Nat → Nat
  | reference, [] => reference
  | reference, now :: times => lastReference rate (nextReference rate reference now) times

/-- The thousandths of a token that the refills of a schedule drop. -/
def dropped (rate : Nat) (reference : Nat) (times : List Nat) : Nat :=
  ((gaps rate reference times).map fun gap =>
    if 1000 ≤ rate * gap then rate * gap % 1000 else 0).sum

/-- The product of a rate and a part of a second fits into 64 bits. -/
def ProductFits (rate gap : Nat) : Prop := gap % 1000 * rate < 2 ^ 64

/-- The last time of a schedule. -/
def lastTime (bucket : TokenBucket) (times : List Nat) : Nat := times.getLastD bucket.lastRefill

/-- What has been earned at the last time fits into the bucket. -/
def BelowCap (bucket : TokenBucket) (times : List Nat) : Prop :=
  bucket.tokens.toNat +
    bucket.refillRate.toNat * (lastTime bucket times - bucket.lastRefill) / 1000 ≤
      bucket.maxTokens.toNat

/-- Refilling at every time gives the tokens of one refill at the last time. -/
def SchedulesAgree (checks : Bool) (bucket : TokenBucket) (times : List Nat) : Prop :=
  ∃ polled single, bucket.refillAll checks times = .ok polled ∧
    bucket.refill checks (lastTime bucket times) = .ok single ∧ polled.tokens = single.tokens

/-- No product overflows, and the fractions of tokens that the refills drop, with what has been
    earned since the last of them, are less than one token. -/
structure NothingLost (bucket : TokenBucket) (times : List Nat) : Prop where
  products : ∀ gap ∈ gaps bucket.refillRate.toNat bucket.lastRefill times,
    ProductFits bucket.refillRate.toNat gap
  product : ProductFits bucket.refillRate.toNat (lastTime bucket times - bucket.lastRefill)
  fractions : dropped bucket.refillRate.toNat bucket.lastRefill times +
    bucket.refillRate.toNat * (lastTime bucket times -
      lastReference bucket.refillRate.toNat bucket.lastRefill times) < 1000

theorem dropped_cons (rate reference now : Nat) (times : List Nat) :
    dropped rate reference (now :: times) =
      (if 1000 ≤ rate * (now - reference) then rate * (now - reference) % 1000 else 0) +
        dropped rate (nextReference rate reference now) times := rfl

/-- A refill that does not reach the cap. -/
theorem refill_eq (checks : Bool)
    (hproduct : ProductFits bucket.refillRate.toNat (now - bucket.lastRefill))
    (hcap : bucket.tokens.toNat + bucket.refillRate.toNat * (now - bucket.lastRefill) / 1000 ≤
      bucket.maxTokens.toNat) :
    ∃ after, bucket.refill checks now = .ok after ∧ after.refillRate = bucket.refillRate ∧
      after.maxTokens = bucket.maxTokens ∧
      after.tokens.toNat =
        bucket.tokens.toNat + bucket.refillRate.toNat * (now - bucket.lastRefill) / 1000 ∧
      after.lastRefill = nextReference bucket.refillRate.toNat bucket.lastRefill now := by
  have hmax := bucket.maxTokens.toNat_lt
  have hticks : earnedTicks checks bucket.refillRate (now - bucket.lastRefill) =
      .ok (bucket.refillRate.toNat * (now - bucket.lastRefill) / 1000) :=
    earnedTicks_eq hproduct (by omega)
  unfold TokenBucket.refill nextReference
  rw [hticks, ok_bind]
  by_cases hearned : 1000 ≤ bucket.refillRate.toNat * (now - bucket.lastRefill)
  · have hpos : bucket.refillRate.toNat * (now - bucket.lastRefill) / 1000 > 0 :=
      Nat.div_pos hearned (by decide)
    rw [if_pos hpos, if_pos hearned, narrow64_of_lt (by omega)]
    refine ⟨_, rfl, rfl, rfl, ?_, rfl⟩
    rw [toNat_ofNat_min]
    exact Nat.min_eq_left hcap
  · have hzero : bucket.refillRate.toNat * (now - bucket.lastRefill) / 1000 = 0 :=
      Nat.div_eq_of_lt (Nat.not_le.mp hearned)
    rw [hzero, if_neg (by decide), if_neg hearned]
    exact ⟨bucket, rfl, rfl, rfl, rfl, rfl⟩

/-- What is earned up to a time, and from it on, is at most what is earned in all. -/
theorem earned_add_le (rate a b : Nat) :
    rate * a / 1000 + rate * b / 1000 ≤ rate * (a + b) / 1000 := by
  rw [Nat.mul_add]
  exact Nat.div_add_div_le_add_div

/-- The start of the count after a refill. -/
theorem nextReference_cases (rate reference now : Nat) :
    1000 ≤ rate * (now - reference) ∧ nextReference rate reference now = now ∨
      rate * (now - reference) < 1000 ∧ nextReference rate reference now = reference := by
  unfold nextReference
  by_cases h : 1000 ≤ rate * (now - reference)
  · exact .inl ⟨h, if_pos h⟩
  · exact .inr ⟨Nat.not_le.mp h, if_neg h⟩

/-- A bucket below the cap up to the time `stop`, and a schedule up to then. -/
structure Schedule (bucket : TokenBucket) (times : List Nat) (stop : Nat) : Prop where
  sorted : (bucket.lastRefill :: times).Pairwise (· ≤ ·)
  stop_ge : ∀ t ∈ bucket.lastRefill :: times, t ≤ stop
  cap : bucket.tokens.toNat + bucket.refillRate.toNat * (stop - bucket.lastRefill) / 1000 ≤
    bucket.maxTokens.toNat

/-- What the bucket is after the first refill of a schedule. -/
structure RefilledAt (bucket after : TokenBucket) (now : Nat) : Prop where
  rate : after.refillRate = bucket.refillRate
  max : after.maxTokens = bucket.maxTokens
  tokens : after.tokens.toNat =
    bucket.tokens.toNat + bucket.refillRate.toNat * (now - bucket.lastRefill) / 1000
  last : after.lastRefill = nextReference bucket.refillRate.toNat bucket.lastRefill now

theorem Schedule.first (checks : Bool) {times : List Nat} {stop : Nat}
    (h : Schedule bucket (now :: times) stop)
    (hproduct : ProductFits bucket.refillRate.toNat (now - bucket.lastRefill)) :
    ∃ after, bucket.refill checks now = .ok after ∧ RefilledAt bucket after now := by
  have hnow : now ≤ stop := h.stop_ge now (by simp)
  have hless : bucket.refillRate.toNat * (now - bucket.lastRefill) / 1000 ≤
      bucket.refillRate.toNat * (stop - bucket.lastRefill) / 1000 :=
    Nat.div_le_div_right (Nat.mul_le_mul_left _ (by omega))
  obtain ⟨after, hrefill, hrate, hmax, htokens, hlast⟩ :=
    refill_eq checks hproduct (by have := h.cap; omega)
  exact ⟨after, hrefill, hrate, hmax, htokens, hlast⟩

/-- The rest of a schedule is one. -/
theorem Schedule.rest {times : List Nat} {stop : Nat} (h : Schedule bucket (now :: times) stop)
    (hafter : RefilledAt bucket after now) : Schedule after times stop := by
  obtain ⟨hsorted, hstop, hcap⟩ := h
  obtain ⟨hrate, hmax, htokens, hlast⟩ := hafter
  rw [List.pairwise_cons, List.pairwise_cons] at hsorted
  obtain ⟨hbefore, hnow, htimes⟩ := hsorted
  have hlater := hbefore now List.mem_cons_self
  have hnowStop : now ≤ stop := hstop now (by simp)
  rcases nextReference_cases bucket.refillRate.toNat bucket.lastRefill now with
    ⟨hearned, hnext⟩ | ⟨hless, hnext⟩
  · -- the count starts at this refill
    rw [hnext] at hlast
    refine ⟨?_, ?_, ?_⟩
    · rw [hlast]
      exact List.pairwise_cons.mpr ⟨hnow, htimes⟩
    · rw [hlast]
      exact fun t ht => hstop t (List.mem_cons_of_mem _ ht)
    · have hadd := earned_add_le bucket.refillRate.toNat (now - bucket.lastRefill) (stop - now)
      rw [show now - bucket.lastRefill + (stop - now) = stop - bucket.lastRefill by omega] at hadd
      rw [hlast, hrate, hmax, htokens]
      omega
  · rw [hnext] at hlast
    have hzero : bucket.refillRate.toNat * (now - bucket.lastRefill) / 1000 = 0 :=
      Nat.div_eq_of_lt hless
    refine ⟨?_, ?_, ?_⟩
    · rw [hlast]
      exact List.pairwise_cons.mpr ⟨fun t ht => hbefore t (List.mem_cons_of_mem _ ht), htimes⟩
    · rw [hlast]
      intro t ht
      rcases List.mem_cons.mp ht with rfl | ht
      · exact hstop _ List.mem_cons_self
      · exact hstop t (List.mem_cons_of_mem _ (List.mem_cons_of_mem _ ht))
    · rw [hlast, hrate, hmax, htokens, hzero]
      omega

/-- In thousandths of a token: what a schedule adds, drops and leaves pending is what is earned up
    to `stop`. -/
theorem refillAll_eq (checks : Bool) {times : List Nat} {stop : Nat}
    (h : Schedule bucket times stop)
    (hproducts : ∀ gap ∈ gaps bucket.refillRate.toNat bucket.lastRefill times,
      ProductFits bucket.refillRate.toNat gap) :
    ∃ after, bucket.refillAll checks times = .ok after ∧
      1000 * after.tokens.toNat + dropped bucket.refillRate.toNat bucket.lastRefill times +
        bucket.refillRate.toNat *
          (stop - lastReference bucket.refillRate.toNat bucket.lastRefill times) =
      1000 * bucket.tokens.toNat + bucket.refillRate.toNat * (stop - bucket.lastRefill) := by
  induction times generalizing bucket with
  | nil => exact ⟨bucket, rfl, by simp [dropped, gaps, lastReference]⟩
  | cons now times ih =>
    obtain ⟨hproduct, hrest⟩ := List.forall_mem_cons.mp hproducts
    obtain ⟨next, hrefill, hnext⟩ := h.first checks hproduct
    have hschedule := h.rest hnext
    obtain ⟨hrate, -, htokens, hlast⟩ := hnext
    rw [← hlast, ← hrate] at hrest
    obtain ⟨after, hafter, hsum⟩ := ih hschedule hrest
    refine ⟨after, ?_, ?_⟩
    · rw [TokenBucket.refillAll, hrefill]
      exact hafter
    · rw [hlast, hrate, htokens] at hsum
      rw [dropped_cons, lastReference]
      have hbefore : bucket.lastRefill ≤ now := (List.pairwise_cons.mp h.sorted).1 now (by simp)
      have hstop : now ≤ stop := h.stop_ge now (by simp)
      have hdivmod := Nat.div_add_mod (bucket.refillRate.toNat * (now - bucket.lastRefill)) 1000
      rcases nextReference_cases bucket.refillRate.toNat bucket.lastRefill now with
        ⟨hearned, hnext⟩ | ⟨hless, hnext⟩
      · rw [if_pos hearned]
        rw [hnext] at hsum ⊢
        have hsplit : bucket.refillRate.toNat * (stop - bucket.lastRefill) =
            bucket.refillRate.toNat * (now - bucket.lastRefill) +
              bucket.refillRate.toNat * (stop - now) := by
          rw [← Nat.mul_add]
          congr 1
          omega
        omega
      · rw [if_neg (Nat.not_le.mpr hless)]
        rw [hnext] at hsum ⊢
        have hzero : bucket.refillRate.toNat * (now - bucket.lastRefill) / 1000 = 0 :=
          Nat.div_eq_of_lt hless
        omega

theorem productFits_of_refill (h : bucket.refill true now = .ok after) :
    ProductFits bucket.refillRate.toNat (now - bucket.lastRefill) := by
  obtain ⟨ticks, hticks, -⟩ := bind_eq_ok h
  obtain ⟨fraction, hfraction, -⟩ := bind_eq_ok hticks
  exact lt_of_narrow64_checks hfraction

/-- With overflow checks, a schedule that runs through has no overflow. -/
theorem productFits_of_refillAll {times : List Nat} {stop : Nat} (h : Schedule bucket times stop)
    (hall : bucket.refillAll true times = .ok after) :
    ∀ gap ∈ gaps bucket.refillRate.toNat bucket.lastRefill times,
      ProductFits bucket.refillRate.toNat gap := by
  induction times generalizing bucket with
  | nil => exact fun gap hgap => absurd hgap List.not_mem_nil
  | cons now times ih =>
    obtain ⟨next, hrefill, hall⟩ := bind_eq_ok hall
    have hproduct := productFits_of_refill hrefill
    obtain ⟨next', hrefill', hnext⟩ := h.first true hproduct
    obtain rfl := Except.ok.inj (hrefill.symm.trans hrefill')
    have hrest := ih (h.rest hnext) hall
    rw [hnext.rate, hnext.last] at hrest
    exact List.forall_mem_cons.mpr ⟨hproduct, hrest⟩

theorem le_lastTime {times : List Nat} (h : (bucket.lastRefill :: times).Pairwise (· ≤ ·)) :
    ∀ t ∈ bucket.lastRefill :: times, t ≤ lastTime bucket times := by
  induction times using List.reverseRecOn with
  | nil => simp [lastTime]
  | append_singleton times t ih =>
    intro s hs
    unfold lastTime
    rw [List.getLastD_concat]
    rw [← List.cons_append] at h hs
    rcases List.mem_append.mp hs with hs | hs
    · exact (List.pairwise_append.mp h).2.2 s hs t (by simp)
    · exact Nat.le_of_eq (by simpa using hs)

theorem schedulesAgree_iff {times : List Nat}
    (hsorted : (bucket.lastRefill :: times).Pairwise (· ≤ ·)) (hcap : BelowCap bucket times) :
    (SchedulesAgree true bucket times ↔ NothingLost bucket times) ∧
      (NothingLost bucket times → SchedulesAgree false bucket times) := by
  have hschedule : Schedule bucket times (lastTime bucket times) :=
    ⟨hsorted, le_lastTime hsorted, hcap⟩
  have hagree : ∀ checks, NothingLost bucket times → SchedulesAgree checks bucket times := by
    rintro checks ⟨hproducts, hproduct, hfractions⟩
    obtain ⟨polled, hpolled, hsum⟩ := refillAll_eq checks hschedule hproducts
    obtain ⟨single, hsingle, -, -, htokens, -⟩ := refill_eq checks hproduct hcap
    refine ⟨polled, single, hpolled, hsingle, UInt64.toNat_inj.mp ?_⟩
    omega
  refine ⟨⟨?_, hagree true⟩, hagree false⟩
  rintro ⟨polled, single, hpolled, hsingle, hsame⟩
  have hproducts := productFits_of_refillAll hschedule hpolled
  have hproduct := productFits_of_refill hsingle
  obtain ⟨polled', hpolled', hsum⟩ := refillAll_eq true hschedule hproducts
  obtain rfl := Except.ok.inj (hpolled.symm.trans hpolled')
  obtain ⟨single', hsingle', -, -, htokens, -⟩ := refill_eq true hproduct hcap
  obtain rfl := Except.ok.inj (hsingle.symm.trans hsingle')
  refine ⟨hproducts, hproduct, ?_⟩
  rw [← hsame] at htokens
  omega

/-- **Polling the bucket.** No run admits more than the burst and what was earned. Below the cap,
    refilling on a schedule comes to the same as refilling once at its end exactly if nothing
    overflows and less than one token is lost on the way. -/
theorem polling_bound_and_loss (bucket : TokenBucket) (times : List Nat) :
    (∀ (checks : Bool) (burst rate : UInt64) (start : Nat) (calls : List (Nat × BucketCall))
        (after : TokenBucket) (admitted : Nat),
      (start :: calls.map Prod.fst).Pairwise (· ≤ ·) →
      runCalls checks (.new burst rate start) calls = .ok (after, admitted) →
      admitted ≤ burst.toNat +
        rate.toNat * ((calls.map Prod.fst).getLastD start - start) / 1000) ∧
    ((bucket.lastRefill :: times).Pairwise (· ≤ ·) → BelowCap bucket times →
      (SchedulesAgree true bucket times ↔ NothingLost bucket times) ∧
        (NothingLost bucket times → SchedulesAgree false bucket times)) := by
  refine ⟨?_, schedulesAgree_iff⟩
  intro checks burst rate start calls after admitted hsorted hrun
  have hnew : Within burst rate start (.new burst rate start) 0 :=
    ⟨rfl, Nat.le_refl _, by simp [TokenBucket.new]⟩
  obtain ⟨⟨-, hstart, hbound⟩, hlast⟩ := hnew.runCalls hsorted hrun
  have hmono : rate.toNat * (after.lastRefill - start) ≤
      rate.toNat * ((calls.map Prod.fst).getLastD start - start) :=
    Nat.mul_le_mul_left _ (Nat.sub_le_sub_right hlast start)
  omega

/-- Three tokens a second, and none left. -/
def drainedBucket : TokenBucket := ⟨0, 10, 3, 0⟩

/-- Two refills a second lose nothing at two tokens a second. -/
theorem even_polling :
    BelowCap ⟨0, 10, 2, 0⟩ [500, 1000] ∧ SchedulesAgree true ⟨0, 10, 2, 0⟩ [500, 1000] := by
  have hcap : BelowCap ⟨0, 10, 2, 0⟩ [500, 1000] := by
    unfold BelowCap
    decide
  refine ⟨hcap, ((polling_bound_and_loss ⟨0, 10, 2, 0⟩ [500, 1000]).2 (by decide) hcap).1.mpr ?_⟩
  exact ⟨by unfold ProductFits; decide, by unfold ProductFits; decide, by decide⟩

/-- Refilled every half second, the drained bucket gets two tokens in the first second; refilled
    once it gets three. -/
theorem half_seconds_lose_a_token :
    TokenBucket.consume true (.new 10 3 0) 0 10 = .ok (drainedBucket, .ok ()) ∧
      BelowCap drainedBucket [500, 1000] ∧
      drainedBucket.refillAll true [500, 1000] = .ok ⟨2, 10, 3, 1000⟩ ∧
      drainedBucket.refill true 1000 = .ok ⟨3, 10, 3, 1000⟩ ∧
      ¬ SchedulesAgree true drainedBucket [500, 1000] := by
  have hcap : BelowCap drainedBucket [500, 1000] := by
    unfold BelowCap
    decide
  have hpolled : drainedBucket.refillAll true [500, 1000] = .ok ⟨2, 10, 3, 1000⟩ := by
    decide +kernel
  have hsingle : drainedBucket.refill true 1000 = .ok ⟨3, 10, 3, 1000⟩ := by decide +kernel
  refine ⟨by decide +kernel, hcap, hpolled, hsingle, ?_⟩
  rintro ⟨polled, single, hpolled', hsingle', hsame⟩
  obtain rfl := Except.ok.inj (hpolled.symm.trans hpolled')
  obtain rfl := Except.ok.inj (hsingle.symm.trans hsingle')
  exact absurd hsame (by decide)

end Synvoid.Ipc
