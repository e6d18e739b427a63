import Mathlib.Algebra.BigOperators.Group.List.Basic
import Mathlib.Data.List.GetD
import Mathlib.Tactic
import Synvoid.Framework.Transition

/-! # The bucketed sliding-window counter

    Model of `AtomicSlidingWindow` (`synvoid-rate-limit/src/window.rs`) and
    its exactness for sequential callers.

    `bucketCount` slots are reused modulo `bucketCount`. A call at tick `t`
    first rotates: if the bucket number `t / bucketDurationMs` is past the
    marker `lastRotateMs`, the marker advances and the slots of the bucket
    numbers that were skipped are cleared, at most `bucketCount` of them.

    What the counter is for is said by an event log: the bucket numbers of
    the increments since the last reset. `Represents` ties the slots to the
    log, and the main result is that every value the counter returns is the
    number of log entries in the window.

    Counters are natural numbers. A `u64` counter differs only after `2 ^ 64`
    increments (`counters_le_increments` bounds them by the increments made);
    tick arithmetic keeps its 64-bit wrap-around.
-/

namespace Synvoid.RateLimit

open Synvoid.Framework

/-! ## Section 1: Model -/

/-- Number of values of a `u64`. -/
def u64Size : Nat := 2 ^ 64

/-- Wrap-around addition on `u64` values. -/
def wrappingAdd (a b : Nat) : Nat := (a + b) % u64Size

/-- Saturating multiplication on `u64` values. -/
def saturatingMul (a b : Nat) : Nat := min (a * b) (u64Size - 1)

/-- The window state. `buckets` is the boxed slice of slots; its length and
    the two clamped parameters never degenerate. -/
structure AtomicSlidingWindow where
  buckets : List Nat
  bucketCount : Nat
  bucketDurationMs : Nat
  lastRotateMs : Nat
  runningSum : Nat
  buckets_length : buckets.length = bucketCount
  bucketCount_pos : 0 < bucketCount
  bucketDurationMs_pos : 0 < bucketDurationMs

namespace AtomicSlidingWindow

/-- Creates a window; degenerate parameters are clamped to 1. -/
def new (windowDurationSecs bucketCount : UInt64) : AtomicSlidingWindow where
  -- `bucket_count.max(1)` and `bucket_duration_ms.max(1)`
  buckets := List.replicate (max bucketCount.toNat 1) 0
  bucketCount := max bucketCount.toNat 1
  bucketDurationMs :=
    max (saturatingMul windowDurationSecs.toNat 1000 / max bucketCount.toNat 1) 1
  lastRotateMs := 0
  runningSum := 0
  buckets_length := List.length_replicate
  bucketCount_pos := by omega
  bucketDurationMs_pos := by omega

/-- Swap slot `idx` with zero and take what it held off the running sum
    (`saturating_sub`, as truncated subtraction). -/
def clearBucket (w : AtomicSlidingWindow) (idx : Nat) : AtomicSlidingWindow :=
  { w with
    buckets := w.buckets.set idx 0
    runningSum := w.runningSum - w.buckets.getD idx 0
    buckets_length := by simp [w.buckets_length] }

/-- Slot cleared by the `i`-th iteration of a rotation that found the marker
    at `lastRotate`. -/
def clearIndex (lastRotate bucketCount i : Nat) : Nat :=
  wrappingAdd (wrappingAdd lastRotate 1) i % bucketCount

/-- The clearing loop of `rotate_buckets`. -/
def clearBuckets (w : AtomicSlidingWindow) (lastRotate bucketsToClear : Nat) :
    AtomicSlidingWindow :=
  (List.range bucketsToClear).foldl
    (fun w i => w.clearBucket (clearIndex lastRotate w.bucketCount i)) w

/-- `rotate_buckets` without contention: the compare-exchange succeeds. -/
def rotateBuckets (w : AtomicSlidingWindow) (nowMs : UInt64) : AtomicSlidingWindow :=
  let currentBucket := nowMs.toNat / w.bucketDurationMs
  let lastRotate := w.lastRotateMs
  if currentBucket > lastRotate then
    clearBuckets { w with lastRotateMs := currentBucket } lastRotate
      -- a jump past the whole window clears every slot once
      (min (currentBucket - lastRotate) w.bucketCount)
  else w

/-- Slot of the bucket that holds tick `nowMs`. -/
def bucketIdx (w : AtomicSlidingWindow) (nowMs : UInt64) : Nat :=
  nowMs.toNat / w.bucketDurationMs % w.bucketCount

/-- `fetch_add(1)` on slot `idx`. -/
def addToBucket (w : AtomicSlidingWindow) (idx : Nat) : AtomicSlidingWindow :=
  { w with
    buckets := w.buckets.set idx (w.buckets.getD idx 0 + 1)
    buckets_length := by simp [w.buckets_length] }

/-- Records one event, returning the window total after it. -/
def incrementAt (w : AtomicSlidingWindow) (nowMs : UInt64) : AtomicSlidingWindow × Nat :=
  let w := w.rotateBuckets nowMs
  let w := w.addToBucket (w.bucketIdx nowMs)
  ({ w with runningSum := w.runningSum + 1 }, w.runningSum + 1)

/-- Returns the window total after expiring stale buckets. -/
def countAt (w : AtomicSlidingWindow) (nowMs : UInt64) : AtomicSlidingWindow × Nat :=
  let w := w.rotateBuckets nowMs
  (w, w.runningSum)

/-- Clears every bucket and the running sum; the marker stays. -/
def reset (w : AtomicSlidingWindow) : AtomicSlidingWindow :=
  { w with
    buckets := w.buckets.map fun _ => 0
    runningSum := 0
    buckets_length := by simp [w.buckets_length] }

end AtomicSlidingWindow

/-- One call on the window. -/
inductive WindowOp where
  | incrementAt (nowMs : UInt64)
  | countAt (nowMs : UInt64)
  | reset
  deriving DecidableEq, Repr

/-- The tick a call reads, if it reads one. -/
def WindowOp.tick : WindowOp → Option UInt64
  | .incrementAt t => some t
  | .countAt t => some t
  | .reset => none

/-- The state after one call. -/
def AtomicSlidingWindow.exec (w : AtomicSlidingWindow) : WindowOp → AtomicSlidingWindow
  | .incrementAt t => (w.incrementAt t).1
  | .countAt t => (w.countAt t).1
  | .reset => w.reset

/-- Sequential runs of calls on one window. -/
def windowSystem (windowDurationSecs bucketCount : UInt64) :
    System AtomicSlidingWindow WindowOp where
  init := fun w => w = .new windowDurationSecs bucketCount
  step := fun w op w' => w' = w.exec op

/-- The calls of a run, in order. -/
def calls {σ : Type} (tr : List (σ × WindowOp)) : List WindowOp := tr.map Prod.snd

/-- The ticks read by a list of calls, in order. -/
def ticks (ops : List WindowOp) : List UInt64 := ops.filterMap WindowOp.tick

/-! ## Section 2: What the counter is for -/

/-- The ticks of the increments since the last reset. -/
def sinceReset (ops : List WindowOp) : List UInt64 :=
  ops.foldl (fun log op =>
    match op with
    | .incrementAt t => log ++ [t]
    | .countAt _ => log
    | .reset => []) []

/-- Number of logged increments whose bucket number lies in `(B - n, B]`,
    where `B` is the bucket number of `t`, for `n` buckets of `d` ms. -/
def inWindow (n d : Nat) (log : List UInt64) (t : UInt64) : Nat :=
  log.countP fun u => t.toNat / d < u.toNat / d + n ∧ u.toNat / d ≤ t.toNat / d

/-- Number of increments among the calls. -/
def increments (ops : List WindowOp) : Nat :=
  ops.countP fun op => match op with
    | .incrementAt _ => true
    | _ => false

/-! ## Section 3: The slots a log determines -/

/-- The slots that a log of bucket numbers leaves behind when the marker is
    at `last`: slot `i` counts the live bucket numbers congruent to `i`. -/
def slots (n last : Nat) (log : List Nat) : List Nat :=
  (List.range n).map fun i => log.countP fun b => b % n = i ∧ last < b + n

@[simp] theorem slots_length (n last : Nat) (log : List Nat) :
    (slots n last log).length = n := by
  simp [slots]

theorem slots_getElem (n last : Nat) (log : List Nat) (i : Nat)
    (h : i < (slots n last log).length) :
    (slots n last log)[i] = log.countP fun b => b % n = i ∧ last < b + n := by
  simp [slots]

/-- Overwriting one slot changes the total by the difference. -/
theorem sum_set (l : List Nat) (i a : Nat) (h : i < l.length) :
    (l.set i a).sum + l.getD i 0 = l.sum + a := by
  induction l generalizing i with
  | nil => simp at h
  | cons x xs ih =>
    cases i with
    | zero => simp; omega
    | succ i =>
      have := ih i (by simpa using h)
      simp at this ⊢
      omega

/-- A log entry adds one to its own slot and nothing elsewhere. -/
theorem slots_concat (n last b : Nat) (log : List Nat) (hn : 0 < n) (hb : last < b + n) :
    slots n last (log ++ [b]) =
      (slots n last log).set (b % n) ((slots n last log).getD (b % n) 0 + 1) := by
  have hlt : b % n < n := Nat.mod_lt b hn
  apply List.ext_getElem (by simp)
  intro i h₁ h₂
  rw [List.getElem_set, slots_getElem, List.countP_append]
  have hi : i < n := by simpa using h₁
  -- only slot `b % n` gets the entry
  by_cases hi' : b % n = i
  · simp [hi', hb, slots, hi]
  · simp [hi', slots]

/-- The total of the slots is the number of live log entries. -/
theorem sum_slots (n last : Nat) (log : List Nat) (hn : 0 < n) :
    (slots n last log).sum = log.countP fun b => last < b + n := by
  -- the log grows at its end, so the induction is on the last entry
  induction log using List.reverseRecOn with
  | nil => simp [slots]
  | append_singleton log b ih =>
    by_cases hb : last < b + n
    · have hlt : b % n < (slots n last log).length := by simpa using Nat.mod_lt b hn
      have hsum := sum_set (slots n last log) (b % n)
        ((slots n last log).getD (b % n) 0 + 1) hlt
      rw [slots_concat n last b log hn hb, List.countP_append]
      simp [hb] at hsum ⊢
      omega
    · -- a dead entry is in no slot
      have hslots : slots n last (log ++ [b]) = slots n last log := by
        simp [slots, List.countP_append, hb]
      rw [hslots, ih, List.countP_append]
      simp [hb]

/-! ## Section 4: The clearing loop -/

namespace AtomicSlidingWindow

/-- Clearing keeps the running sum in step with the slots. -/
theorem clearBucket_sum (w : AtomicSlidingWindow) (idx : Nat)
    (hidx : idx < w.bucketCount) (hsum : w.runningSum = w.buckets.sum) :
    (w.clearBucket idx).runningSum = (w.clearBucket idx).buckets.sum := by
  have := sum_set w.buckets idx 0 (by rw [w.buckets_length]; exact hidx)
  show w.runningSum - w.buckets.getD idx 0 = (w.buckets.set idx 0).sum
  omega

/-- The indices the loop visits, when the bucket numbers it stands for fit in
    a `u64`. -/
theorem clearIndex_eq (last n i : Nat) (h : last + 1 + i < u64Size) :
    clearIndex last n i = (last + 1 + i) % n := by
  unfold clearIndex wrappingAdd
  rw [Nat.mod_eq_of_lt (a := last + 1) (by omega), Nat.mod_eq_of_lt h]

theorem clearBuckets_succ (w : AtomicSlidingWindow) (last k : Nat) :
    w.clearBuckets last (k + 1) =
      (w.clearBuckets last k).clearBucket
        (clearIndex last (w.clearBuckets last k).bucketCount k) := by
  simp [clearBuckets, List.range_succ]

/-- The loop touches the slots and the running sum only. -/
theorem clearBuckets_frame (w : AtomicSlidingWindow) (last k : Nat) :
    (w.clearBuckets last k).bucketCount = w.bucketCount ∧
    (w.clearBuckets last k).bucketDurationMs = w.bucketDurationMs ∧
    (w.clearBuckets last k).lastRotateMs = w.lastRotateMs := by
  induction k with
  | zero => simp [clearBuckets]
  | succ k ih => simpa [clearBuckets_succ, clearBucket] using ih

/-- **Loop invariant.** After `k` iterations a slot is zero if it was visited
    and unchanged otherwise, and the running sum is still the total. -/
theorem clearBuckets_spec (w : AtomicSlidingWindow) (last k : Nat)
    (hfit : last + k < u64Size) (hsum : w.runningSum = w.buckets.sum) :
    (∀ j, (w.clearBuckets last k).buckets.getD j 0 =
      if ∃ i < k, (last + 1 + i) % w.bucketCount = j then 0 else w.buckets.getD j 0) ∧
    (w.clearBuckets last k).runningSum = (w.clearBuckets last k).buckets.sum := by
  induction k with
  | zero => simp [clearBuckets, hsum]
  | succ k ih =>
    obtain ⟨ihslot, ihsum⟩ := ih (by omega)
    have hcount := (clearBuckets_frame w last k).1
    have hidx : clearIndex last (w.clearBuckets last k).bucketCount k =
        (last + 1 + k) % w.bucketCount := by
      rw [hcount]; exact clearIndex_eq last _ k (by omega)
    have hlt : (last + 1 + k) % w.bucketCount < w.bucketCount :=
      Nat.mod_lt _ w.bucketCount_pos
    -- iteration `k` clears the slot of bucket number `last + 1 + k`
    rw [clearBuckets_succ, hidx]
    refine ⟨?_, clearBucket_sum _ _ (by rw [hcount]; exact hlt) ihsum⟩
    intro j
    have hset : ((w.clearBuckets last k).clearBucket ((last + 1 + k) % w.bucketCount)).buckets =
        (w.clearBuckets last k).buckets.set ((last + 1 + k) % w.bucketCount) 0 := rfl
    rw [hset]
    by_cases hj : (last + 1 + k) % w.bucketCount = j
    · -- the slot visited last
      have hex : ∃ i < k + 1, (last + 1 + i) % w.bucketCount = j := ⟨k, by omega, hj⟩
      rw [if_pos hex, hj, List.getD_eq_getElem?_getD, List.getElem?_set_self']
      cases (w.clearBuckets last k).buckets[j]? <;> rfl
    · -- any other slot is as the first `k` iterations left it
      have hsame : ((w.clearBuckets last k).buckets.set
          ((last + 1 + k) % w.bucketCount) 0).getD j 0 =
          (w.clearBuckets last k).buckets.getD j 0 := by
        simp [List.getD_eq_getElem?_getD, hj]
      have hiff : (∃ i < k + 1, (last + 1 + i) % w.bucketCount = j) ↔
          ∃ i < k, (last + 1 + i) % w.bucketCount = j := by
        constructor
        · intro ⟨i, hi, hij⟩
          rcases Nat.lt_succ_iff_lt_or_eq.mp hi with hlt' | rfl
          · exact ⟨i, hlt', hij⟩
          · exact absurd hij hj
        · intro ⟨i, hi, hij⟩
          exact ⟨i, by omega, hij⟩
      rw [hsame, ihslot j]
      simp only [hiff]

end AtomicSlidingWindow

/-! ## Section 5: The window represents its log -/

/-- The window state `w` stands for the log: no logged bucket number is past
    the marker, the slots are those of the log, the running sum their total. -/
structure Represents (w : AtomicSlidingWindow) (log : List Nat) : Prop where
  newest : ∀ b ∈ log, b ≤ w.lastRotateMs
  buckets : w.buckets = slots w.bucketCount w.lastRotateMs log
  sum : w.runningSum = w.buckets.sum

/-- The running sum counts the live log entries. -/
theorem Represents.runningSum {w : AtomicSlidingWindow} {log : List Nat}
    (h : Represents w log) :
    w.runningSum = log.countP fun b => w.lastRotateMs < b + w.bucketCount := by
  rw [h.sum, h.buckets]
  exact sum_slots _ _ _ w.bucketCount_pos

/-- A visited slot holds no bucket number that is still live afterwards. -/
theorem dead_of_cleared {n last current i b : Nat} (hi : i < min (current - last) n)
    (hb : b ≤ last) (hmod : b % n = (last + 1 + i) % n) : ¬ current < b + n := by
  intro hlive
  -- `b` and `last + 1 + i` are congruent and less than `n` apart
  have hsub : (last + 1 + i - b) % n = 0 :=
    Nat.sub_mod_eq_zero_of_mod_eq hmod.symm
  have hdvd : n ∣ last + 1 + i - b := Nat.dvd_of_mod_eq_zero hsub
  have hpos : 0 < last + 1 + i - b := by omega
  have := Nat.le_of_dvd hpos hdvd
  omega

/-- A bucket number that dies in the rotation sits in a visited slot. -/
theorem cleared_of_dead {n last current b : Nat} (hb : b ≤ last)
    (hlive : last < b + n) (hdead : ¬ current < b + n) :
    ∃ i < min (current - last) n, (last + 1 + i) % n = b % n := by
  refine ⟨b + n - last - 1, by omega, ?_⟩
  rw [show last + 1 + (b + n - last - 1) = b + n by omega, Nat.add_mod_right]

/-- Clearing the visited slots of `slots n last log` gives the slots for the
    new marker. -/
theorem slots_rotate (n last current : Nat) (log : List Nat) (j : Nat)
    (hnew : ∀ b ∈ log, b ≤ last) (hlt : last < current) :
    (if ∃ i < min (current - last) n, (last + 1 + i) % n = j then 0
      else log.countP fun b => b % n = j ∧ last < b + n) =
    log.countP fun b => b % n = j ∧ current < b + n := by
  split
  · next hvisited =>
    -- cleared: nothing congruent to this slot is live under the new marker
    obtain ⟨i, hi, rfl⟩ := hvisited
    symm
    rw [List.countP_eq_zero]
    intro b hb
    have hdead := fun hmod => dead_of_cleared hi (hnew b hb) hmod
    simpa using hdead
  · next hkept =>
    -- kept: what was live in this slot is live under the new marker
    apply List.countP_congr
    intro b hb
    have hlive : b % n = j → last < b + n → current < b + n := by
      intro hmod hl
      by_contra hdead
      obtain ⟨i, hi, hij⟩ := cleared_of_dead (hnew b hb) hl hdead
      exact hkept ⟨i, hi, hij.trans hmod⟩
    simp only [decide_eq_true_eq]
    constructor
    · intro ⟨hmod, hl⟩
      exact ⟨hmod, hlive hmod hl⟩
    · intro ⟨hmod, hc⟩
      exact ⟨hmod, by omega⟩

section operations
variable {w : AtomicSlidingWindow} {log : List Nat}

/-- What a rotation leaves alone, and where it puts the marker. -/
theorem rotateBuckets_frame (w : AtomicSlidingWindow) (t : UInt64) :
    (w.rotateBuckets t).bucketCount = w.bucketCount ∧
    (w.rotateBuckets t).bucketDurationMs = w.bucketDurationMs ∧
    (w.rotateBuckets t).lastRotateMs = max w.lastRotateMs (t.toNat / w.bucketDurationMs) := by
  unfold AtomicSlidingWindow.rotateBuckets
  simp only
  split
  · next hlt =>
    obtain ⟨h₁, h₂, h₃⟩ := AtomicSlidingWindow.clearBuckets_frame
      { w with lastRotateMs := t.toNat / w.bucketDurationMs } w.lastRotateMs
      (min (t.toNat / w.bucketDurationMs - w.lastRotateMs) w.bucketCount)
    exact ⟨h₁, h₂, by rw [h₃]; simp; omega⟩
  · exact ⟨rfl, rfl, by omega⟩

/-- A rotation keeps the log. -/
theorem Represents.rotateBuckets (h : Represents w log) (t : UInt64) :
    Represents (w.rotateBuckets t) log := by
  obtain ⟨hcount, -, hlast⟩ := rotateBuckets_frame w t
  by_cases hlt : w.lastRotateMs < t.toNat / w.bucketDurationMs
  · -- the marker moves to the bucket of `t`, and the loop runs
    set current := t.toNat / w.bucketDurationMs with hcurrent
    have hdiv : current ≤ t.toNat := Nat.div_le_self _ _
    have ht : t.toNat < u64Size := t.toNat_lt
    have hrot : w.rotateBuckets t =
        AtomicSlidingWindow.clearBuckets { w with lastRotateMs := current } w.lastRotateMs
          (min (current - w.lastRotateMs) w.bucketCount) := by
      simp [AtomicSlidingWindow.rotateBuckets, ← hcurrent, hlt]
    obtain ⟨hslot, hsum⟩ := AtomicSlidingWindow.clearBuckets_spec
      { w with lastRotateMs := current } w.lastRotateMs
      (min (current - w.lastRotateMs) w.bucketCount) (by omega) h.sum
    rw [← hrot] at hslot hsum
    refine ⟨?_, ?_, hsum⟩
    · intro b hb
      have := h.newest b hb
      omega
    · -- slot by slot, `slots_rotate` gives the slots of the new marker
      apply List.ext_getElem
      · rw [(w.rotateBuckets t).buckets_length, slots_length]
      · intro j hj₁ hj₂
        have hj : j < w.bucketCount := by simpa [hcount] using hj₂
        have hold : w.buckets.getD j 0 =
            log.countP fun b => b % w.bucketCount = j ∧ w.lastRotateMs < b + w.bucketCount := by
          rw [h.buckets, List.getD_eq_getElem _ _ (by simpa using hj), slots_getElem]
        have hnew := hslot j
        rw [List.getD_eq_getElem _ _ hj₁] at hnew
        rw [hnew, slots_getElem, hcount, hlast, max_eq_right (Nat.le_of_lt hlt)]
        simp only [hold]
        exact slots_rotate _ _ _ _ j h.newest hlt
  · have hrot : w.rotateBuckets t = w := by
      simp [AtomicSlidingWindow.rotateBuckets, hlt]
    rw [hrot]
    exact h

/-- An increment appends its bucket number to the log, provided the marker is
    not past it. -/
theorem Represents.incrementAt (h : Represents w log) (t : UInt64)
    (hle : w.lastRotateMs ≤ t.toNat / w.bucketDurationMs) :
    Represents (w.incrementAt t).1 (log ++ [t.toNat / w.bucketDurationMs]) := by
  obtain ⟨hcount, hdur, hlast⟩ := rotateBuckets_frame w t
  have hr := h.rotateBuckets t
  set r := w.rotateBuckets t with hrdef
  -- the rotation has put the marker at the bucket of `t`, so its entry is live
  have hlast' : r.lastRotateMs = t.toNat / w.bucketDurationMs := by omega
  have hidx : r.bucketIdx t = t.toNat / w.bucketDurationMs % r.bucketCount := by
    rw [AtomicSlidingWindow.bucketIdx, hdur]
  have hb : (w.incrementAt t).1.buckets =
      slots r.bucketCount r.lastRotateMs (log ++ [t.toNat / w.bucketDurationMs]) := by
    rw [slots_concat _ _ _ _ r.bucketCount_pos (by have := r.bucketCount_pos; omega)]
    show (r.buckets.set (r.bucketIdx t) (r.buckets.getD (r.bucketIdx t) 0 + 1)) = _
    rw [hidx, hr.buckets]
  refine ⟨?_, hb, ?_⟩
  · intro b hmem
    show b ≤ r.lastRotateMs
    rcases List.mem_append.mp hmem with hold | hnew
    · exact hr.newest b hold
    · have : b = t.toNat / w.bucketDurationMs := by simpa using hnew
      omega
  · show r.runningSum + 1 =
      (r.buckets.set (r.bucketIdx t) (r.buckets.getD (r.bucketIdx t) 0 + 1)).sum
    have hlt : r.bucketIdx t < r.buckets.length := by
      rw [r.buckets_length, hidx]; exact Nat.mod_lt _ r.bucketCount_pos
    have hset := sum_set r.buckets (r.bucketIdx t) (r.buckets.getD (r.bucketIdx t) 0 + 1) hlt
    have hsum := hr.sum
    omega

/-- A reset forgets the log. -/
theorem Represents.reset (w : AtomicSlidingWindow) : Represents w.reset [] := by
  refine ⟨by simp, ?_, ?_⟩
  · show w.buckets.map (fun _ => 0) = slots w.bucketCount w.lastRotateMs []
    apply List.ext_getElem (by simp [w.buckets_length])
    intro i _ _
    simp [slots]
  · show 0 = (w.buckets.map fun _ => 0).sum
    simp

end operations

/-! ## Section 6: Runs -/

/-- The log of a run in bucket numbers of `d` ms. -/
def bucketLog (d : Nat) (ops : List WindowOp) : List Nat :=
  (sinceReset ops).map fun t => t.toNat / d

@[simp] theorem calls_concat {σ : Type} (tr : List (σ × WindowOp)) (s : σ) (op : WindowOp) :
    calls (tr ++ [(s, op)]) = calls tr ++ [op] := by
  simp [calls]

theorem sinceReset_concat (ops : List WindowOp) (op : WindowOp) :
    sinceReset (ops ++ [op]) =
      match op with
      | .incrementAt t => sinceReset ops ++ [t]
      | .countAt _ => sinceReset ops
      | .reset => [] := by
  cases op <;> simp [sinceReset]

theorem ticks_concat (ops : List WindowOp) (op : WindowOp) :
    ticks (ops ++ [op]) = ticks ops ++ op.tick.toList := by
  simp only [ticks, List.filterMap_append]
  cases op <;> rfl

/-- What holds of a window after a run with nondecreasing ticks: its
    parameters are the initial ones, it represents the run's log, and its
    marker is at the bucket of some tick that was read. -/
structure RunInv (w₀ : AtomicSlidingWindow) (ops : List WindowOp)
    (w : AtomicSlidingWindow) : Prop where
  count : w.bucketCount = w₀.bucketCount
  duration : w.bucketDurationMs = w₀.bucketDurationMs
  represents : Represents w (bucketLog w₀.bucketDurationMs ops)
  marker : w.lastRotateMs = 0 ∨
    ∃ u ∈ ticks ops, w.lastRotateMs = u.toNat / w₀.bucketDurationMs

/-- A tick that no earlier tick exceeds is not behind the marker. -/
theorem RunInv.lastRotate_le {w₀ w : AtomicSlidingWindow} {ops : List WindowOp}
    (h : RunInv w₀ ops w) {t : UInt64} (ht : ∀ u ∈ ticks ops, u ≤ t) :
    w.lastRotateMs ≤ t.toNat / w.bucketDurationMs := by
  rcases h.marker with h0 | ⟨u, hu, hmark⟩
  · rw [h0]; exact Nat.zero_le _
  · rw [hmark, h.duration]
    exact Nat.div_le_div_right (UInt64.le_iff_toNat_le.mp (ht u hu))

/-- After a rotation at the newest tick the marker is at that tick. -/
theorem RunInv.rotated_marker {w₀ w : AtomicSlidingWindow} {ops : List WindowOp}
    (h : RunInv w₀ ops w) {t : UInt64} (ht : ∀ u ∈ ticks ops, u ≤ t) :
    (w.rotateBuckets t).lastRotateMs = t.toNat / w₀.bucketDurationMs := by
  have hle := h.lastRotate_le ht
  rw [(rotateBuckets_frame w t).2.2, max_eq_right hle, h.duration]

theorem RunInv.new (secs n : UInt64) : RunInv (.new secs n) [] (.new secs n) := by
  refine ⟨rfl, rfl, ⟨by simp [bucketLog, sinceReset], ?_, ?_⟩, Or.inl rfl⟩
  · apply List.ext_getElem
    · simp [AtomicSlidingWindow.new]
    · intro i _ _
      simp [AtomicSlidingWindow.new, slots, bucketLog, sinceReset]
  · simp [AtomicSlidingWindow.new]

/-- **Step lemma.** One call whose tick is not behind an earlier one keeps
    the run invariant. -/
theorem RunInv.step {w₀ w : AtomicSlidingWindow} {ops : List WindowOp}
    (h : RunInv w₀ ops w) (op : WindowOp) (hop : ∀ t ∈ op.tick, ∀ u ∈ ticks ops, u ≤ t) :
    RunInv w₀ (ops ++ [op]) (w.exec op) := by
  cases op with
  | incrementAt t =>
    have ht : ∀ u ∈ ticks ops, u ≤ t := hop t rfl
    obtain ⟨hcount, hdur, -⟩ := rotateBuckets_frame w t
    refine ⟨hcount.trans h.count, hdur.trans h.duration, ?_, Or.inr ⟨t, ?_, ?_⟩⟩
    · have hr := h.represents.incrementAt t (h.lastRotate_le ht)
      simpa [AtomicSlidingWindow.exec, bucketLog, sinceReset_concat, h.duration] using hr
    · simp [ticks_concat, WindowOp.tick]
    · exact h.rotated_marker ht
  | countAt t =>
    have ht : ∀ u ∈ ticks ops, u ≤ t := hop t rfl
    obtain ⟨hcount, hdur, -⟩ := rotateBuckets_frame w t
    refine ⟨hcount.trans h.count, hdur.trans h.duration, ?_, Or.inr ⟨t, ?_, ?_⟩⟩
    · simpa [AtomicSlidingWindow.exec, AtomicSlidingWindow.countAt, bucketLog,
        sinceReset_concat] using h.represents.rotateBuckets t
    · simp [ticks_concat, WindowOp.tick]
    · exact h.rotated_marker ht
  | reset =>
    refine ⟨h.count, h.duration, ?_, ?_⟩
    · simpa [AtomicSlidingWindow.exec, bucketLog, sinceReset_concat] using Represents.reset w
    · simpa [AtomicSlidingWindow.exec, AtomicSlidingWindow.reset, ticks_concat,
        WindowOp.tick] using h.marker

/-- **Run lemma.** Every run with nondecreasing ticks keeps the run
    invariant. -/
theorem runInv_of_exec {secs n : UInt64} {tr : List (AtomicSlidingWindow × WindowOp)}
    {w : AtomicSlidingWindow} (h : (windowSystem secs n).Exec tr w)
    (hmono : (ticks (calls tr)).Pairwise (· ≤ ·)) :
    RunInv (.new secs n) (calls tr) w := by
  refine System.Exec.history
    (fun tr w => (ticks (calls tr)).Pairwise (· ≤ ·) → RunInv (.new secs n) (calls tr) w)
    ?_ ?_ h hmono
  · intro s hs _
    rw [show s = .new secs n from hs]
    exact RunInv.new secs n
  · -- the new tick comes last in the run, so no earlier tick exceeds it
    intro tr s op s' ih hstep hmono'
    rw [calls_concat, ticks_concat, List.pairwise_append] at hmono'
    rw [calls_concat, show s' = s.exec op from hstep]
    refine (ih hmono'.1).step op ?_
    intro t ht u hu
    exact hmono'.2.2 u hu t (by simpa using ht)

/-- The live entries of the log are the increments in the window. -/
theorem countP_bucketLog (n d : Nat) (log : List UInt64) (t : UInt64)
    (ht : ∀ u ∈ log, u ≤ t) :
    ((log.map fun u => u.toNat / d).countP fun b => t.toNat / d < b + n) = inWindow n d log t := by
  rw [List.countP_map]
  apply List.countP_congr
  intro u hu
  have hle : u.toNat / d ≤ t.toNat / d :=
    Nat.div_le_div_right (UInt64.le_iff_toNat_le.mp (ht u hu))
  simp [hle]

/-- Every logged increment is one of the ticks read. -/
theorem sinceReset_subset (ops : List WindowOp) : ∀ u ∈ sinceReset ops, u ∈ ticks ops := by
  induction ops using List.reverseRecOn with
  | nil => simp [sinceReset]
  | append_singleton ops op ih =>
    intro u hu
    rw [sinceReset_concat] at hu
    rw [ticks_concat, List.mem_append]
    cases op with
    | incrementAt t =>
      rcases List.mem_append.mp hu with hold | hnew
      · exact Or.inl (ih u hold)
      · exact Or.inr (by simpa [WindowOp.tick] using hnew)
    | countAt t => exact Or.inl (ih u hu)
    | reset => simp at hu

/-- **Exactness.** For every configuration and every sequential run with
    nondecreasing ticks, the running sum is the total of the buckets, and at
    every tick that is not behind the run, both calls return the number of
    increments since the last reset in the window that ends there. -/
theorem window_count_exact (secs n : UInt64)
    (tr : List (AtomicSlidingWindow × WindowOp)) (w : AtomicSlidingWindow)
    (h : (windowSystem secs n).Exec tr w)
    (hmono : (ticks (calls tr)).Pairwise (· ≤ ·)) :
    w.runningSum = w.buckets.sum ∧
    ∀ t : UInt64, (∀ u ∈ ticks (calls tr), u ≤ t) →
      (w.countAt t).2 =
        inWindow (AtomicSlidingWindow.new secs n).bucketCount
          (AtomicSlidingWindow.new secs n).bucketDurationMs (sinceReset (calls tr)) t ∧
      (w.incrementAt t).2 =
        inWindow (AtomicSlidingWindow.new secs n).bucketCount
          (AtomicSlidingWindow.new secs n).bucketDurationMs
          (sinceReset (calls tr ++ [.incrementAt t])) t := by
  have hinv := runInv_of_exec h hmono
  refine ⟨hinv.represents.sum, fun t ht => ?_⟩
  have hlog : ∀ u ∈ sinceReset (calls tr), u ≤ t :=
    fun u hu => ht u (sinceReset_subset _ u hu)
  have hcount : (w.countAt t).2 =
      inWindow (AtomicSlidingWindow.new secs n).bucketCount
        (AtomicSlidingWindow.new secs n).bucketDurationMs (sinceReset (calls tr)) t := by
    rw [← countP_bucketLog _ _ _ _ hlog]
    -- behind the rotation the running sum counts the log entries live at `t`
    have hsum := (hinv.represents.rotateBuckets t).runningSum
    rw [hinv.rotated_marker ht, (rotateBuckets_frame w t).1, hinv.count] at hsum
    exact hsum
  refine ⟨hcount, ?_⟩
  -- an increment returns what a count would, and itself
  have hinc : (w.incrementAt t).2 = (w.countAt t).2 + 1 := rfl
  have hpos := (AtomicSlidingWindow.new secs n).bucketCount_pos
  rw [hinc, hcount, sinceReset_concat]
  simp [inWindow, List.countP_append, hpos]

theorem window_count_exact_two_increments :
    ((((AtomicSlidingWindow.new 1 10).exec (.incrementAt 100)).exec
      (.incrementAt 150)).countAt 1099).2 = 2 := by
  have hrun : (windowSystem 1 10).Exec _ _ :=
    ((System.Exec.nil rfl).snoc (l := .incrementAt 100) rfl).snoc (l := .incrementAt 150) rfl
  have hlate : ∀ u ∈ ([100, 150] : List UInt64), u ≤ 1099 :=
    List.forall_mem_cons.mpr ⟨by decide, List.forall_mem_singleton.mpr (by decide)⟩
  have h := ((window_count_exact 1 10 _ _ hrun (by decide)).2 1099 hlate).1
  rw [h]
  decide

/-! ## Section 7: Counters stay below the number of increments -/

/-- Every slot and the running sum are at most `k`. -/
def CountersLe (w : AtomicSlidingWindow) (k : Nat) : Prop :=
  w.runningSum ≤ k ∧ ∀ b ∈ w.buckets, b ≤ k

theorem CountersLe.clearBuckets {w : AtomicSlidingWindow} {k : Nat} (h : CountersLe w k)
    (last m : Nat) : CountersLe (w.clearBuckets last m) k := by
  induction m with
  | zero => simpa [AtomicSlidingWindow.clearBuckets] using h
  | succ m ih =>
    rw [AtomicSlidingWindow.clearBuckets_succ]
    refine ⟨(Nat.sub_le _ _).trans ih.1, ?_⟩
    intro b hb
    rcases List.mem_or_eq_of_mem_set hb with hold | rfl
    · exact ih.2 b hold
    · exact Nat.zero_le k

theorem CountersLe.rotateBuckets {w : AtomicSlidingWindow} {k : Nat} (h : CountersLe w k)
    (t : UInt64) : CountersLe (w.rotateBuckets t) k := by
  unfold AtomicSlidingWindow.rotateBuckets
  simp only
  split
  · exact CountersLe.clearBuckets
      (w := { w with lastRotateMs := t.toNat / w.bucketDurationMs }) h _ _
  · exact h

theorem CountersLe.exec {w : AtomicSlidingWindow} {k : Nat} (h : CountersLe w k)
    (op : WindowOp) : CountersLe (w.exec op) (k + increments [op]) := by
  cases op with
  | incrementAt t =>
    have hr := h.rotateBuckets t
    refine ⟨Nat.succ_le_succ hr.1, ?_⟩
    intro b hb
    rcases List.mem_or_eq_of_mem_set hb with hold | rfl
    · exact (hr.2 b hold).trans (Nat.le_succ k)
    · apply Nat.succ_le_succ
      rw [List.getD_eq_getElem?_getD]
      cases hget : (w.rotateBuckets t).buckets[(w.rotateBuckets t).bucketIdx t]? with
      | none => exact Nat.zero_le k
      | some v => exact hr.2 v (List.mem_of_getElem? hget)
  | countAt t => exact h.rotateBuckets t
  | reset =>
    refine ⟨Nat.zero_le _, ?_⟩
    intro b hb
    obtain ⟨_, _, rfl⟩ := List.mem_map.mp hb
    exact Nat.zero_le _

/-- No counter ever exceeds the number of increments made, so the `u64`
    counters of a run with fewer than `2 ^ 64` increments never wrap. -/
theorem counters_le_increments {secs n : UInt64}
    {tr : List (AtomicSlidingWindow × WindowOp)} {w : AtomicSlidingWindow}
    (h : (windowSystem secs n).Exec tr w) : CountersLe w (increments (calls tr)) := by
  refine System.Exec.history (fun tr w => CountersLe w (increments (calls tr))) ?_ ?_ h
  · intro s hs
    rw [show s = .new secs n from hs]
    exact ⟨Nat.zero_le _, by simp [AtomicSlidingWindow.new]⟩
  · intro tr s op s' ih hstep
    rw [show s' = s.exec op from hstep, calls_concat]
    simpa [increments, List.countP_append] using ih.exec op

end Synvoid.RateLimit
