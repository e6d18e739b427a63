import Synvoid.RateLimit.SlidingWindow

/-! # Concurrent callers of the sliding window

    `increment_at` and `count_at` are lock free: each is a sequence of atomic
    accesses, and the accesses of concurrent calls interleave. Here every
    atomic access is one step of a transition system whose state is the
    shared window and the program point of each call.

    An increment adds to its bucket and to the running sum in two accesses,
    and a rotation swaps a bucket out and takes the value off the running sum
    in two accesses. Between them the books are out of balance by

    * `pendingAdd`: increments that are in a bucket but not in the sum yet;
    * `held`: values swapped out of a bucket but not taken off the sum yet.

    The subtraction saturates. When it does, part of the decrement is lost,
    and `running_sum_balance` shows that this loss is never made up for: when
    no call is in progress the running sum is the bucket total plus
    everything that saturated so far.
-/

namespace Synvoid.RateLimit

open Synvoid.Framework

/-! ## Section 1: Calls as sequences of atomic accesses -/

/-- A concurrent call. -/
inductive WindowCall where
  | incrementAt (nowMs : UInt64)
  | countAt (nowMs : UInt64)
  deriving DecidableEq, Repr

/-- The tick the call was made with. -/
def WindowCall.nowMs : WindowCall → UInt64
  | .incrementAt t => t
  | .countAt t => t

/-- Program point of a call: the atomic access it makes next, with the local
    variables still in use. -/
inductive ProgramPoint where
  /-- `rotate_buckets`: load of `last_rotate_ms`. -/
  | load (c : WindowCall)
  /-- Compare-exchange of `last_rotate_ms`, reached if the bucket advanced. -/
  | compareExchange (c : WindowCall) (lastRotate : Nat)
  /-- Swap of the bucket of loop iteration `i`. -/
  | swap (c : WindowCall) (lastRotate bucketsToClear i : Nat)
  /-- `fetch_update` of `running_sum` with the value just swapped out. -/
  | fetchUpdate (c : WindowCall) (lastRotate bucketsToClear i cleared : Nat)
  /-- `increment_at`: `fetch_add` of the bucket. -/
  | addBucket (nowMs : UInt64)
  /-- `increment_at`: `fetch_add` of `running_sum`. -/
  | addSum
  /-- `count_at`: load of `running_sum`. -/
  | readSum
  /-- The call has returned. -/
  | returned (value : Nat)
  deriving DecidableEq, Repr

/-- Where a call continues once `rotate_buckets` is done. -/
def afterRotate : WindowCall → ProgramPoint
  | .incrementAt t => .addBucket t
  | .countAt _ => .readSum

/-- Where the clearing loop continues with iteration `i`. -/
def loopAt (c : WindowCall) (lastRotate bucketsToClear i : Nat) : ProgramPoint :=
  if i < bucketsToClear then .swap c lastRotate bucketsToClear i else afterRotate c

/-- One atomic access of a call; a call that has returned makes none. -/
def advance (w : AtomicSlidingWindow) :
    ProgramPoint → Option (AtomicSlidingWindow × ProgramPoint)
  | .load c =>
      let lastRotate := w.lastRotateMs
      some (w, if c.nowMs.toNat / w.bucketDurationMs > lastRotate
        then .compareExchange c lastRotate else afterRotate c)
  | .compareExchange c lastRotate =>
      let currentBucket := c.nowMs.toNat / w.bucketDurationMs
      -- another call may have rotated since the load: then this one does not
      if w.lastRotateMs = lastRotate then
        some ({ w with lastRotateMs := currentBucket },
          loopAt c lastRotate (min (currentBucket - lastRotate) w.bucketCount) 0)
      else some (w, afterRotate c)
  | .swap c lastRotate k i =>
      let idx := AtomicSlidingWindow.clearIndex lastRotate w.bucketCount i
      some ({ w with
          buckets := w.buckets.set idx 0
          buckets_length := by simp [w.buckets_length] },
        .fetchUpdate c lastRotate k i (w.buckets.getD idx 0))
  | .fetchUpdate c lastRotate k i cleared =>
      -- truncated subtraction, as `saturating_sub`
      some ({ w with runningSum := w.runningSum - cleared }, loopAt c lastRotate k (i + 1))
  | .addBucket t => some (w.addToBucket (w.bucketIdx t), .addSum)
  | .addSum => some ({ w with runningSum := w.runningSum + 1 }, .returned (w.runningSum + 1))
  | .readSum => some (w, .returned w.runningSum)
  | .returned _ => none

/-- The shared window and the program point of every call made so far. -/
structure SharedState where
  window : AtomicSlidingWindow
  threads : List ProgramPoint

/-- A new call starts, or call number `i` makes its next access. -/
inductive Event where
  | call (c : WindowCall)
  | access (i : Nat)
  deriving DecidableEq, Repr

def SharedState.next (s : SharedState) : Event → Option SharedState
  | .call c => some { s with threads := s.threads ++ [.load c] }
  | .access i =>
      s.threads[i]?.bind fun pc =>
        (advance s.window pc).map fun r =>
          { window := r.1, threads := s.threads.set i r.2 }

/-- Interleavings of any number of calls on one window. -/
def sharedSystem (windowDurationSecs bucketCount : UInt64) : System SharedState Event :=
  System.ofNext { window := .new windowDurationSecs bucketCount, threads := [] }
    SharedState.next

/-- No call is in progress. -/
def Quiescent (s : SharedState) : Prop :=
  ∀ pc ∈ s.threads, ∃ v, pc = .returned v

/-! ## Section 2: The books -/

/-- Increments this call has put in a bucket but not in the running sum. -/
def pendingAdd : ProgramPoint → Nat
  | .addSum => 1
  | _ => 0

/-- The value this call has swapped out and still has to take off the sum. -/
def held : ProgramPoint → Nat
  | .fetchUpdate _ _ _ _ cleared => cleared
  | _ => 0

/-- What the access loses to saturation, in the state before it. -/
def lost (s : SharedState) : Event → Nat
  | .call _ => 0
  | .access i => (s.threads[i]?.elim 0 held) - s.window.runningSum

/-- The access is a `fetch_update` whose subtraction saturates: the value it
    subtracts is larger than the running sum it finds. -/
def Saturates (s : SharedState) (e : Event) : Prop :=
  ∃ i c lastRotate k j cleared, e = .access i ∧
    s.threads[i]? = some (.fetchUpdate c lastRotate k j cleared) ∧
    s.window.runningSum < cleared

@[simp] theorem pendingAdd_afterRotate (c : WindowCall) : pendingAdd (afterRotate c) = 0 := by
  cases c <;> rfl

@[simp] theorem held_afterRotate (c : WindowCall) : held (afterRotate c) = 0 := by
  cases c <;> rfl

@[simp] theorem pendingAdd_loopAt (c : WindowCall) (last k i : Nat) :
    pendingAdd (loopAt c last k i) = 0 := by
  unfold loopAt
  split
  · rfl
  · exact pendingAdd_afterRotate c

@[simp] theorem held_loopAt (c : WindowCall) (last k i : Nat) :
    held (loopAt c last k i) = 0 := by
  unfold loopAt
  split
  · rfl
  · exact held_afterRotate c

/-- **Step lemma.** One access of one call keeps the balance between the
    running sum, the buckets and the call's own open entry, up to what it
    loses to saturation. -/
theorem advance_balance {w w' : AtomicSlidingWindow} {pc pc' : ProgramPoint}
    (h : advance w pc = some (w', pc')) :
    w'.runningSum + pendingAdd pc' + w.buckets.sum + held pc =
      w.runningSum + pendingAdd pc + w'.buckets.sum + held pc' + (held pc - w.runningSum) := by
  cases pc with
  | load c =>
    simp only [advance, Option.some.injEq, Prod.mk.injEq] at h
    obtain ⟨rfl, rfl⟩ := h
    split
    · simp only [pendingAdd, held]; omega
    · rw [pendingAdd_afterRotate, held_afterRotate]
      simp only [pendingAdd, held]; omega
  | compareExchange c last =>
    simp only [advance] at h
    split at h
    · simp only [Option.some.injEq, Prod.mk.injEq] at h
      obtain ⟨rfl, rfl⟩ := h
      rw [pendingAdd_loopAt, held_loopAt]
      simp only [pendingAdd, held]; omega
    · simp only [Option.some.injEq, Prod.mk.injEq] at h
      obtain ⟨rfl, rfl⟩ := h
      rw [pendingAdd_afterRotate, held_afterRotate]
      simp only [pendingAdd, held]; omega
  | swap c last k i =>
    simp only [advance, Option.some.injEq, Prod.mk.injEq] at h
    obtain ⟨rfl, rfl⟩ := h
    have hlt : AtomicSlidingWindow.clearIndex last w.bucketCount i < w.buckets.length := by
      rw [w.buckets_length]; exact Nat.mod_lt _ w.bucketCount_pos
    -- what leaves the bucket is now held by the call
    have hset := sum_set w.buckets _ 0 hlt
    simp only [pendingAdd, held]
    omega
  | fetchUpdate c last k i cleared =>
    simp only [advance, Option.some.injEq, Prod.mk.injEq] at h
    obtain ⟨rfl, rfl⟩ := h
    -- the held value goes off the sum, up to the part that saturates
    rw [pendingAdd_loopAt, held_loopAt]
    simp only [pendingAdd, held]
    omega
  | addBucket t =>
    simp only [advance, Option.some.injEq, Prod.mk.injEq] at h
    obtain ⟨rfl, rfl⟩ := h
    have hlt : w.bucketIdx t < w.buckets.length := by
      rw [w.buckets_length]; exact Nat.mod_lt _ w.bucketCount_pos
    -- the bucket is one ahead of the sum until the call's second access
    have hset := sum_set w.buckets _ (w.buckets.getD (w.bucketIdx t) 0 + 1) hlt
    simp only [pendingAdd, held, AtomicSlidingWindow.addToBucket]
    omega
  | addSum =>
    simp only [advance, Option.some.injEq, Prod.mk.injEq] at h
    obtain ⟨rfl, rfl⟩ := h
    simp only [pendingAdd, held]
    omega
  | readSum =>
    simp only [advance, Option.some.injEq, Prod.mk.injEq] at h
    obtain ⟨rfl, rfl⟩ := h
    simp only [pendingAdd, held]
    omega
  | returned v => simp [advance] at h

/-! ## Section 3: The balance of a run -/

/-- Open entries of all calls. -/
def pendingAdds (s : SharedState) : Nat := (s.threads.map pendingAdd).sum

def heldTotal (s : SharedState) : Nat := (s.threads.map held).sum

/-- Everything a run has lost to saturation. -/
def lostTotal (tr : List (SharedState × Event)) : Nat :=
  (tr.map fun e => lost e.1 e.2).sum

/-- Replacing the program point of one call changes a sum over the calls by
    the difference. -/
theorem sum_map_set (f : ProgramPoint → Nat) (l : List ProgramPoint) (i : Nat)
    (pc pc' : ProgramPoint) (h : l[i]? = some pc) :
    ((l.set i pc').map f).sum + f pc = (l.map f).sum + f pc' := by
  obtain ⟨hi, hget⟩ := List.getElem?_eq_some_iff.mp h
  have hset := sum_set (l.map f) i (f pc') (by simpa using hi)
  rw [List.map_set]
  simpa [List.getD_eq_getElem?_getD, h] using hset

/-- **Run lemma.** Running sum and open additions balance buckets, open
    subtractions and losses in every state of every interleaving. -/
theorem running_sum_balance {secs n : UInt64} {tr : List (SharedState × Event)}
    {s : SharedState} (h : (sharedSystem secs n).Exec tr s) :
    s.window.runningSum + pendingAdds s =
      s.window.buckets.sum + heldTotal s + lostTotal tr := by
  refine System.Exec.history
    (fun tr s => s.window.runningSum + pendingAdds s =
      s.window.buckets.sum + heldTotal s + lostTotal tr) ?_ ?_ h
  · intro s hs
    rw [show s = _ from hs]
    simp [AtomicSlidingWindow.new, pendingAdds, heldTotal, lostTotal]
  · intro tr s e s' ih hstep
    have hlost : lostTotal (tr ++ [(s, e)]) = lostTotal tr + lost s e := by
      simp [lostTotal]
    rw [hlost]
    cases e with
    | call c =>
      obtain rfl : _ = s' := Option.some.inj hstep
      simpa [pendingAdds, heldTotal, lost, pendingAdd, held] using ih
    | access i =>
      obtain ⟨pc, hpc, hadv⟩ := Option.bind_eq_some_iff.mp hstep
      obtain ⟨⟨w', pc'⟩, hr, rfl⟩ := Option.map_eq_some_iff.mp hadv
      -- the accessing call moves, all others keep their program points
      have hbal := advance_balance hr
      have hadd := sum_map_set pendingAdd s.threads i pc pc' hpc
      have hheld := sum_map_set held s.threads i pc pc' hpc
      simp only [pendingAdds, heldTotal, lost, hpc, Option.elim_some] at ih hadd hheld ⊢
      omega

/-- Without a call in progress nothing is open. -/
theorem Quiescent.nothing_open {s : SharedState} (h : Quiescent s) :
    pendingAdds s = 0 ∧ heldTotal s = 0 := by
  refine ⟨List.sum_eq_zero ?_, List.sum_eq_zero ?_⟩ <;>
  · intro x hx
    obtain ⟨pc, hpc, rfl⟩ := List.mem_map.mp hx
    obtain ⟨v, rfl⟩ := h pc hpc
    rfl

theorem lost_pos_iff (s : SharedState) (e : Event) : 0 < lost s e ↔ Saturates s e := by
  constructor
  · intro h
    cases e with
    -- only an access can lose something
    | call c => simp [lost] at h
    | access i =>
      cases hpc : s.threads[i]? with
      | none => simp [lost, hpc] at h
      | some pc =>
        simp only [lost, hpc, Option.elim_some] at h
        cases pc with
        | fetchUpdate c last k j cleared =>
          exact ⟨i, c, last, k, j, cleared, rfl, hpc, by simp only [held] at h; omega⟩
        | _ => simp [held] at h
  · rintro ⟨i, c, last, k, j, cleared, rfl, hpc, hlt⟩
    simp only [lost, hpc, Option.elim_some, held]
    omega

/-- **Drift.** When no call is in progress, the running sum equals the bucket
    total exactly if no subtraction of the run saturated. -/
theorem running_sum_eq_iff_no_saturation (secs n : UInt64)
    (tr : List (SharedState × Event)) (s : SharedState)
    (h : (sharedSystem secs n).Exec tr s) (hq : Quiescent s) :
    s.window.runningSum = s.window.buckets.sum ↔ ∀ e ∈ tr, ¬ Saturates e.1 e.2 := by
  have hbal := running_sum_balance h
  obtain ⟨hadds, hheld⟩ := hq.nothing_open
  -- nothing is open, so the difference is what saturated
  have hdrift : s.window.runningSum = s.window.buckets.sum ↔ lostTotal tr = 0 := by omega
  rw [hdrift, lostTotal, List.sum_eq_zero_iff]
  simp only [List.mem_map, forall_exists_index, and_imp, forall_apply_eq_imp_iff₂,
    ← lost_pos_iff, Nat.not_lt, Nat.le_zero]

/-- A replay from a fresh window whose threads have all returned. -/
theorem exists_quiescent_exec (secs n : UInt64) (es : List Event)
    (values : List Nat) (total : Nat) (buckets : List Nat)
    (h : ((replay SharedState.next ⟨.new secs n, []⟩ es).map fun s =>
      (s.threads, s.window.runningSum, s.window.buckets)) =
        some (values.map .returned, total, buckets)) :
    ∃ tr s, tr.map Prod.snd = es ∧ (sharedSystem secs n).Exec tr s ∧ Quiescent s ∧
      s.window.runningSum = total ∧ s.window.buckets = buckets := by
  obtain ⟨s, hs, heq⟩ := Option.map_eq_some_iff.mp h
  simp only [Prod.mk.injEq] at heq
  obtain ⟨hthreads, hsum, hbuckets⟩ := heq
  obtain ⟨tr, hlabels, hexec⟩ := exec_of_replay (System.Exec.nil rfl) es hs
  refine ⟨tr, s, hlabels, hexec, ?_, hsum, hbuckets⟩
  intro pc hpc
  rw [hthreads] at hpc
  obtain ⟨v, -, rfl⟩ := List.mem_map.mp hpc
  exact ⟨v, rfl⟩

/-- An increment, then another one that rotates while a call counts: the bucket is swapped out,
    counted once more and taken off the sum. -/
def rotationWhileCounting : List Event :=
  [.call (.incrementAt 0), .access 0, .access 0, .access 0,
    .call (.incrementAt 1000), .call (.countAt 1000), .access 1, .access 2, .access 1, .access 2,
    .access 1, .access 2, .access 1, .access 1, .access 1]

theorem rotationWhileCounting_sum :
    ∃ tr s, tr.map Prod.snd = rotationWhileCounting ∧ (sharedSystem 1 1).Exec tr s ∧
      Quiescent s ∧ s.window.runningSum = 1 ∧ ∀ e ∈ tr, ¬ Saturates e.1 e.2 := by
  obtain ⟨tr, s, hlabels, hexec, hq, hsum, hbuckets⟩ := exists_quiescent_exec 1 1
    rotationWhileCounting [1, 1, 1] 1 [1] rfl
  have hiff := running_sum_eq_iff_no_saturation 1 1 tr s hexec hq
  exact ⟨tr, s, hlabels, hexec, hq, hsum, hiff.mp (by rw [hsum, hbuckets]; rfl)⟩

/-- An increment is between its two additions while a rotation swaps its
    bucket out: the subtraction finds a running sum of zero, loses the
    decrement, and the increment's own addition leaves a permanent one. -/
theorem running_sum_drifts :
    ∃ tr s, (sharedSystem 1 1).Exec tr s ∧ Quiescent s ∧
      s.window.runningSum ≠ s.window.buckets.sum := by
  obtain ⟨tr, s, -, hexec, hq, hsum, hbuckets⟩ := exists_quiescent_exec 1 1
    [.call (.incrementAt 0), .access 0, .access 0,
     .call (.countAt 1000), .access 1, .access 1, .access 1, .access 1, .access 1,
     .access 0] [1, 0] 1 [0] rfl
  exact ⟨tr, s, hexec, hq, by rw [hsum, hbuckets]; decide⟩

end Synvoid.RateLimit
