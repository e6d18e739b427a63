import Mathlib.Algebra.Group.Nat.Defs
import Mathlib.Data.List.DropRight
import Mathlib.Data.List.Infix

/-! # Health checks

    Model of `HealthChecker::check_all_pools` (`synvoid-upstream/src/health.rs`)
    and of `Backend::record_success` and `record_failure` of `pool.rs`. A backend
    becomes unhealthy when its failure counter reaches a threshold, and healthy
    again when its success counter does. The counters are meant to count
    consecutive outcomes. The pool resets each of them when the other is raised,
    and so follows the law (`recordResult_flips`). The health checker only resets
    the failures, and only on a recovery; it follows the law as long as no
    counter is left that should have been reset (`health_flips`).
-/

namespace Synvoid.Upstream

/-! ### Streaks -/

/-- The number of equal outcomes `o` at the end of the outcomes. -/
def streak (o : Bool) (outcomes : List Bool) : Nat := (outcomes.rtakeWhile (· == o)).length

@[simp] theorem streak_nil (o : Bool) : streak o [] = 0 := rfl

theorem streak_snoc (o : Bool) (outcomes : List Bool) (outcome : Bool) :
    streak o (outcomes ++ [outcome]) = if outcome = o then streak o outcomes + 1 else 0 := by
  unfold streak
  rw [List.rtakeWhile_concat]
  by_cases h : outcome = o <;> simp [h]

/-- The last `n` outcomes are `o`. -/
theorem replicate_suffix_iff (n : Nat) (o : Bool) (outcomes : List Bool) :
    List.replicate n o <:+ outcomes ↔ n ≤ streak o outcomes := by
  induction outcomes using List.reverseRecOn generalizing n with
  | nil => simp
  | append_singleton outcomes outcome ih =>
    cases n with
    | zero => simp
    | succ n =>
      rw [List.replicate_succ', streak_snoc]
      by_cases h : outcome = o
      · subst h
        rw [if_pos rfl, Nat.add_le_add_iff_right, ← ih, List.suffix_concat_iff]
        simp
      · rw [if_neg h, List.suffix_concat_iff]
        simp [Ne.symm h]

/-! ### The counters of a backend -/

structure HealthCheckConfig where
  failureThreshold : UInt32
  recoveryThreshold : UInt32

/-- The fields of `Backend` that health checks read and write. -/
structure BackendHealth where
  isHealthy : Bool
  consecutiveFailures : UInt32
  consecutiveSuccesses : UInt32
  deriving DecidableEq

def BackendHealth.new : BackendHealth where
  isHealthy := true
  consecutiveFailures := 0
  consecutiveSuccesses := 0

section checker
variable (config : HealthCheckConfig)

/-- The body of the loop over the results of a round. -/
def checkOutcome (backend : BackendHealth) (outcome : Bool) : BackendHealth :=
  if outcome then
    if backend.isHealthy then backend
    else
      let successes := backend.consecutiveSuccesses + 1
      if successes ≥ config.recoveryThreshold then
        { isHealthy := true, consecutiveFailures := 0, consecutiveSuccesses := successes }
      else { backend with consecutiveSuccesses := successes }
  else
    let failures := backend.consecutiveFailures + 1
    { backend with
      consecutiveFailures := failures
      isHealthy := backend.isHealthy && !decide (failures ≥ config.failureThreshold) }

/-- One round of checks over all backends. -/
def checkAllPools {κ : Type*} [DecidableEq κ] (backends : κ → BackendHealth)
    (results : List (κ × Bool)) : κ → BackendHealth :=
  results.foldl (fun backends result => Function.update backends result.1
    (checkOutcome config (backends result.1) result.2)) backends

def checkRounds {κ : Type*} [DecidableEq κ] (rounds : List (List (κ × Bool))) : κ → BackendHealth :=
  rounds.foldl (checkAllPools config) fun _ => .new

/-- A backend after these outcomes of its checks. -/
def healthAfter (outcomes : List Bool) : BackendHealth := outcomes.foldl (checkOutcome config) .new

end checker

def outcomesOf {κ : Type*} [DecidableEq κ] (backend : κ) (results : List (κ × Bool)) : List Bool :=
  (results.filter fun result => result.1 = backend).map Prod.snd

/-- `Backend::record_success`. -/
def recordSuccess (backend : BackendHealth) : BackendHealth :=
  let successes := backend.consecutiveSuccesses + 1
  { isHealthy := backend.isHealthy || decide (successes ≥ 3)
    consecutiveFailures := 0
    consecutiveSuccesses := successes }

/-- `Backend::record_failure`. -/
def recordFailure (backend : BackendHealth) : BackendHealth :=
  let failures := backend.consecutiveFailures + 1
  { isHealthy := backend.isHealthy && !decide (failures ≥ 3)
    consecutiveFailures := failures
    consecutiveSuccesses := 0 }

def recordResult (backend : BackendHealth) (outcome : Bool) : BackendHealth :=
  if outcome then recordSuccess backend else recordFailure backend

/-! ### The law -/

/-- With the last of the outcomes a backend changes its state just when the outcomes end in enough
    failures, or successes. -/
structure FlipsRightly (config : HealthCheckConfig) (outcomes : List Bool)
    (before after : BackendHealth) : Prop where
  fails : before.isHealthy = true →
    (after.isHealthy = false ↔ List.replicate config.failureThreshold.toNat false <:+ outcomes)
  recovers : before.isHealthy = false →
    (after.isHealthy = true ↔ List.replicate config.recoveryThreshold.toNat true <:+ outcomes)

/-- The outcome finds the other counter at zero where it should reset it. A left-over success
    counter does no harm if one success is enough, until it wraps around. -/
def NothingToReset (config : HealthCheckConfig) (backend : BackendHealth) : Bool → Prop
  | true => backend.isHealthy = true → backend.consecutiveFailures = 0
  | false => backend.consecutiveSuccesses = 0 ∨
      (config.recoveryThreshold = 1 ∧ backend.consecutiveSuccesses.toNat + 1 < 2 ^ 32)

instance (config : HealthCheckConfig) (backend : BackendHealth) (outcome : Bool) :
    Decidable (NothingToReset config backend outcome) :=
  match outcome with
  | true => inferInstanceAs (Decidable (_ → _))
  | false => inferInstanceAs (Decidable (_ ∨ _))

/-! ### The checker on one backend -/

section rounds
variable {config : HealthCheckConfig} {κ : Type*} [DecidableEq κ]

theorem checkAllPools_apply (backends : κ → BackendHealth) (results : List (κ × Bool))
    (backend : κ) :
    checkAllPools config backends results backend =
      (outcomesOf backend results).foldl (checkOutcome config) (backends backend) := by
  unfold checkAllPools
  induction results generalizing backends with
  | nil => rfl
  | cons result results ih =>
    rw [List.foldl_cons, ih]
    by_cases h : result.1 = backend
    · subst h
      simp [outcomesOf]
    · simp [outcomesOf, h, Function.update_of_ne (Ne.symm h)]

theorem outcomesOf_append (backend : κ) (results results' : List (κ × Bool)) :
    outcomesOf backend (results ++ results') =
      outcomesOf backend results ++ outcomesOf backend results' := by
  simp [outcomesOf]

/-- Of the rounds, a backend sees the outcomes of its own checks. -/
theorem checkRounds_apply (rounds : List (List (κ × Bool))) (backend : κ) :
    checkRounds config rounds backend = healthAfter config (outcomesOf backend rounds.flatten) := by
  induction rounds using List.reverseRecOn with
  | nil => rfl
  | append_singleton rounds results ih =>
    have hlast : checkRounds config (rounds ++ [results]) =
        checkAllPools config (checkRounds config rounds) results := by
      simp [checkRounds]
    rw [hlast, checkAllPools_apply, ih, List.flatten_concat, outcomesOf_append]
    exact (List.foldl_append ..).symm

end rounds

/-- The counter that the next outcome may raise to its threshold counts the outcomes at the end. -/
structure CountsStreak (config : HealthCheckConfig) (outcomes : List Bool)
    (backend : BackendHealth) : Prop where
  failures : backend.isHealthy = true →
    backend.consecutiveFailures.toNat = streak false outcomes ∧
      streak false outcomes < config.failureThreshold.toNat
  successes : backend.isHealthy = false →
    (backend.consecutiveSuccesses.toNat = streak true outcomes ∧
        streak true outcomes < config.recoveryThreshold.toNat) ∨
      (config.recoveryThreshold = 1 ∧ backend.consecutiveSuccesses.toNat + 1 < 2 ^ 32)

section steps
variable {config : HealthCheckConfig} {outcomes : List Bool} {backend : BackendHealth}

theorem toNat_succ_of_lt {c t : UInt32} (h : c.toNat < t.toNat) : (c + 1).toNat = c.toNat + 1 := by
  have ht := t.toNat_lt
  rw [UInt32.toNat_add]
  refine Nat.mod_eq_of_lt ?_
  show c.toNat + 1 < 2 ^ 32
  omega

/-- A state that does not change, at an outcome that cannot change it. -/
theorem flipsRightly_unchanged {outcome : Bool} {after : BackendHealth}
    (hF : 0 < config.failureThreshold) (hR : 0 < config.recoveryThreshold)
    (hstate : after.isHealthy = backend.isHealthy) (houtcome : outcome = backend.isHealthy) :
    FlipsRightly config (outcomes ++ [outcome]) backend after := by
  have hF' := UInt32.lt_iff_toNat_lt.mp hF
  have hR' := UInt32.lt_iff_toNat_lt.mp hR
  constructor
  · intro hhealthy
    rw [replicate_suffix_iff, streak_snoc, houtcome, hstate, hhealthy]
    simpa using hF'.ne'
  · intro hunhealthy
    rw [replicate_suffix_iff, streak_snoc, houtcome, hstate, hunhealthy]
    simpa using hR'.ne'

theorem CountsStreak.success_healthy (hF : 0 < config.failureThreshold)
    (hhealthy : backend.isHealthy = true) (hreset : backend.consecutiveFailures = 0) :
    CountsStreak config (outcomes ++ [true]) (checkOutcome config backend true) := by
  have heq : checkOutcome config backend true = backend := by
    simp [checkOutcome, hhealthy]
  rw [heq]
  refine ⟨fun _ => ?_, fun hunhealthy => ?_⟩
  · rw [streak_snoc, hreset]
    exact ⟨rfl, UInt32.lt_iff_toNat_lt.mp hF⟩
  · rw [hhealthy] at hunhealthy
    cases hunhealthy

theorem CountsStreak.success_unhealthy (h : CountsStreak config outcomes backend)
    (hF : 0 < config.failureThreshold) (hunhealthy : backend.isHealthy = false) :
    CountsStreak config (outcomes ++ [true]) (checkOutcome config backend true) ∧
      FlipsRightly config (outcomes ++ [true]) backend (checkOutcome config backend true) := by
  -- the counter reaches the threshold just when the streak does
  have hreaches : backend.consecutiveSuccesses + 1 ≥ config.recoveryThreshold ↔
      config.recoveryThreshold.toNat ≤ streak true outcomes + 1 := by
    rw [ge_iff_le, UInt32.le_iff_toNat_le]
    rcases h.successes hunhealthy with ⟨hcount, hlt⟩ | ⟨hone, hlt⟩
    · rw [toNat_succ_of_lt (hcount ▸ hlt), hcount]
    · have hsucc : (backend.consecutiveSuccesses + 1).toNat =
          backend.consecutiveSuccesses.toNat + 1 := by
        rw [UInt32.toNat_add]
        exact Nat.mod_eq_of_lt hlt
      have hone' : config.recoveryThreshold.toNat = 1 := by rw [hone]; rfl
      omega
  have hstreak : streak true (outcomes ++ [true]) = streak true outcomes + 1 := by
    rw [streak_snoc, if_pos rfl]
  by_cases hthreshold : backend.consecutiveSuccesses + 1 ≥ config.recoveryThreshold
  · have heq : checkOutcome config backend true =
        ⟨true, 0, backend.consecutiveSuccesses + 1⟩ := by
      simp [checkOutcome, hunhealthy, hthreshold]
    rw [heq]
    refine ⟨⟨fun _ => ?_, fun hfalse => by cases hfalse⟩, ⟨fun hfalse => ?_, fun _ => ?_⟩⟩
    · rw [streak_snoc]
      exact ⟨rfl, UInt32.lt_iff_toNat_lt.mp hF⟩
    · rw [hunhealthy] at hfalse
      cases hfalse
    · rw [replicate_suffix_iff, hstreak]
      exact iff_of_true rfl (hreaches.mp hthreshold)
  · have heq : checkOutcome config backend true =
        { backend with consecutiveSuccesses := backend.consecutiveSuccesses + 1 } := by
      simp [checkOutcome, hunhealthy, hthreshold]
    have hlt := mt hreaches.mpr hthreshold
    rw [heq]
    refine ⟨⟨fun hfalse => ?_, fun _ => ?_⟩, ⟨fun hfalse => ?_, fun _ => ?_⟩⟩
    · rw [hunhealthy] at hfalse
      cases hfalse
    · rcases h.successes hunhealthy with ⟨hcount, hcount'⟩ | ⟨hone, -⟩
      · refine .inl ⟨?_, by omega⟩
        rw [toNat_succ_of_lt (hcount ▸ hcount'), hcount, hstreak]
      · have hone' : config.recoveryThreshold.toNat = 1 := by rw [hone]; rfl
        omega
    · rw [hunhealthy] at hfalse
      cases hfalse
    · rw [replicate_suffix_iff, hstreak]
      exact iff_of_false (by simp [hunhealthy]) hlt

/-- A failure does not raise the success counter, and leaves no successes at the end. -/
theorem successes_of_nothingToReset (hreset : NothingToReset config backend false)
    (hR : 0 < config.recoveryThreshold) :
    ((checkOutcome config backend false).consecutiveSuccesses.toNat =
          streak true (outcomes ++ [false]) ∧
        streak true (outcomes ++ [false]) < config.recoveryThreshold.toNat) ∨
      (config.recoveryThreshold = 1 ∧
        (checkOutcome config backend false).consecutiveSuccesses.toNat + 1 < 2 ^ 32) := by
  rw [streak_snoc]
  rcases hreset with hzero | hone
  · refine .inl ⟨?_, UInt32.lt_iff_toNat_lt.mp hR⟩
    show backend.consecutiveSuccesses.toNat = 0
    rw [hzero]
    rfl
  · exact .inr hone

theorem CountsStreak.failure_healthy (h : CountsStreak config outcomes backend)
    (hhealthy : backend.isHealthy = true) (hreset : NothingToReset config backend false)
    (hR : 0 < config.recoveryThreshold) :
    CountsStreak config (outcomes ++ [false]) (checkOutcome config backend false) ∧
      FlipsRightly config (outcomes ++ [false]) backend (checkOutcome config backend false) := by
  obtain ⟨hcount, hlt⟩ := h.failures hhealthy
  have hsucc := toNat_succ_of_lt (hcount ▸ hlt)
  have hstreak : streak false (outcomes ++ [false]) = streak false outcomes + 1 := by
    rw [streak_snoc, if_pos rfl]
  have hreaches : backend.consecutiveFailures + 1 ≥ config.failureThreshold ↔
      config.failureThreshold.toNat ≤ streak false outcomes + 1 := by
    rw [ge_iff_le, UInt32.le_iff_toNat_le, hsucc, hcount]
  have hafter : (checkOutcome config backend false).isHealthy =
      !decide (config.failureThreshold.toNat ≤ streak false outcomes + 1) := by
    simp only [checkOutcome, Bool.false_eq_true, if_false, hhealthy, Bool.true_and, hreaches]
  refine ⟨⟨fun hstill => ?_, fun _ => ?_⟩, ⟨fun _ => ?_, fun hfalse => ?_⟩⟩
  · have hlt' : ¬ config.failureThreshold.toNat ≤ streak false outcomes + 1 := by
      simpa [hafter] using hstill
    rw [hstreak]
    exact ⟨hsucc.trans (by rw [hcount]), by omega⟩
  · exact successes_of_nothingToReset hreset hR
  · rw [replicate_suffix_iff, hstreak, hafter]
    simp
  · rw [hhealthy] at hfalse
    cases hfalse

theorem CountsStreak.failure_unhealthy (hunhealthy : backend.isHealthy = false)
    (hreset : NothingToReset config backend false) (hR : 0 < config.recoveryThreshold) :
    CountsStreak config (outcomes ++ [false]) (checkOutcome config backend false) := by
  have hafter : (checkOutcome config backend false).isHealthy = false := by
    simp [checkOutcome, hunhealthy]
  refine ⟨fun hfalse => ?_, fun _ => ?_⟩
  · rw [hafter] at hfalse
    cases hfalse
  · exact successes_of_nothingToReset hreset hR

/-- One outcome that finds no counter to reset. -/
theorem CountsStreak.checkOutcome (h : CountsStreak config outcomes backend)
    (hF : 0 < config.failureThreshold) (hR : 0 < config.recoveryThreshold) {outcome : Bool}
    (hreset : NothingToReset config backend outcome) :
    CountsStreak config (outcomes ++ [outcome]) (checkOutcome config backend outcome) ∧
      FlipsRightly config (outcomes ++ [outcome]) backend
        (Upstream.checkOutcome config backend outcome) := by
  cases outcome <;> cases hstate : backend.isHealthy
  case false.false =>
    refine ⟨.failure_unhealthy hstate hreset hR, flipsRightly_unchanged hF hR ?_ hstate.symm⟩
    simp [Upstream.checkOutcome, hstate]
  case false.true => exact h.failure_healthy hstate hreset hR
  case true.false => exact h.success_unhealthy hF hstate
  case true.true =>
    refine ⟨.success_healthy hF hstate (hreset hstate),
      flipsRightly_unchanged hF hR ?_ hstate.symm⟩
    simp [Upstream.checkOutcome, hstate]

end steps

theorem healthAfter_snoc (config : HealthCheckConfig) (outcomes : List Bool) (outcome : Bool) :
    healthAfter config (outcomes ++ [outcome]) =
      checkOutcome config (healthAfter config outcomes) outcome := by
  simp [healthAfter]

/-- The counters after the outcomes, if each of them found nothing to reset. -/
theorem countsStreak_healthAfter {config : HealthCheckConfig} (hF : 0 < config.failureThreshold)
    (hR : 0 < config.recoveryThreshold) (outcomes : List Bool)
    (hreset : ∀ pre outcome, pre ++ [outcome] <+: outcomes →
      NothingToReset config (healthAfter config pre) outcome) :
    CountsStreak config outcomes (healthAfter config outcomes) := by
  induction outcomes using List.reverseRecOn with
  | nil => exact ⟨fun _ => ⟨rfl, UInt32.lt_iff_toNat_lt.mp hF⟩, fun hfalse => by cases hfalse⟩
  | append_singleton outcomes outcome ih =>
    have hbefore := ih fun pre outcome' hpre =>
      hreset pre outcome' (hpre.trans (List.prefix_append _ _))
    rw [healthAfter_snoc]
    exact (hbefore.checkOutcome hF hR (hreset outcomes outcome (List.prefix_refl _))).1

/-- As long as no outcome finds a counter that it should reset, a backend changes its state just
    when its last outcomes say so. -/
theorem health_flips {κ : Type*} [DecidableEq κ] (config : HealthCheckConfig)
    (hF : 1 ≤ config.failureThreshold) (hR : 1 ≤ config.recoveryThreshold)
    (rounds : List (List (κ × Bool))) (backend : κ)
    (hreset : ∀ pre outcome, pre ++ [outcome] <+: outcomesOf backend rounds.flatten →
      NothingToReset config (healthAfter config pre) outcome) :
    checkRounds config rounds backend = healthAfter config (outcomesOf backend rounds.flatten) ∧
      ∀ pre outcome, pre ++ [outcome] <+: outcomesOf backend rounds.flatten →
        FlipsRightly config (pre ++ [outcome]) (healthAfter config pre)
          (healthAfter config (pre ++ [outcome])) := by
  refine ⟨checkRounds_apply rounds backend, fun pre outcome hpre => ?_⟩
  have hF' : 0 < config.failureThreshold :=
    UInt32.lt_iff_toNat_lt.mpr (UInt32.le_iff_toNat_le.mp hF)
  have hR' : 0 < config.recoveryThreshold :=
    UInt32.lt_iff_toNat_lt.mpr (UInt32.le_iff_toNat_le.mp hR)
  have hbefore := countsStreak_healthAfter hF' hR' pre fun pre' outcome' hpre' =>
    hreset pre' outcome' (hpre'.trans ((List.prefix_append _ _).trans hpre))
  rw [healthAfter_snoc]
  exact (hbefore.checkOutcome hF' hR' (hreset pre outcome hpre)).2

/-- A property of every outcome and those before it, by the position of the outcome. -/
theorem forall_snoc_prefix {outcomes : List Bool} {P : List Bool → Bool → Prop}
    (h : ∀ i : Fin outcomes.length, P (outcomes.take i) (outcomes.get i)) :
    ∀ pre outcome, pre ++ [outcome] <+: outcomes → P pre outcome := by
  rintro pre outcome ⟨rest, rfl⟩
  simpa using h ⟨pre.length, by simp⟩

/-- Four failures and two successes. -/
theorem down_and_up_again :
    (checkRounds ⟨3, 2⟩ [[((), false)], [((), false)], [((), false)], [((), false)], [((), true)],
        [((), true)]] ()).isHealthy = true ∧
      FlipsRightly ⟨3, 2⟩ [false, false, false] (healthAfter ⟨3, 2⟩ [false, false])
        (healthAfter ⟨3, 2⟩ [false, false, false]) := by
  have hreset : ∀ pre outcome,
      pre ++ [outcome] <+: [false, false, false, false, true, true] →
        NothingToReset ⟨3, 2⟩ (healthAfter ⟨3, 2⟩ pre) outcome := by
    refine forall_snoc_prefix ?_
    decide
  have hflips := health_flips ⟨3, 2⟩ (by decide) (by decide)
    [[((), false)], [((), false)], [((), false)], [((), false)], [((), true)], [((), true)]] ()
    hreset
  refine ⟨?_, hflips.2 [false, false] false (by decide)⟩
  rw [hflips.1]
  decide

/-- Three failures with successes between them. -/
theorem scattered_failures_flip :
    (healthAfter ⟨3, 2⟩ [false, true, false, true]).isHealthy = true ∧
      (healthAfter ⟨3, 2⟩ [false, true, false, true, false]).isHealthy = false ∧
      ¬ List.replicate 3 false <:+ [false, true, false, true, false] := by
  decide

/-! ### The counters of the pool -/

section pool
variable {outcomes : List Bool} {backend : BackendHealth}

/-- The thresholds of `record_success` and `record_failure`. -/
def poolThresholds : HealthCheckConfig := ⟨3, 3⟩

/-- The other counter is reset before an outcome is counted. -/
def BackendHealth.reset (backend : BackendHealth) (outcome : Bool) : BackendHealth :=
  if outcome then { backend with consecutiveFailures := 0 }
  else { backend with consecutiveSuccesses := 0 }

/-- The pool counts as the checker does after a reset, up to counters that no threshold is
    compared with in that state. -/
theorem recordResult_eq (backend : BackendHealth) (outcome : Bool) :
    (recordResult backend outcome).isHealthy =
        (checkOutcome poolThresholds (backend.reset outcome) outcome).isHealthy ∧
      ((recordResult backend outcome).isHealthy = true →
        (recordResult backend outcome).consecutiveFailures =
          (checkOutcome poolThresholds (backend.reset outcome) outcome).consecutiveFailures) ∧
      ((recordResult backend outcome).isHealthy = false →
        (recordResult backend outcome).consecutiveSuccesses =
          (checkOutcome poolThresholds (backend.reset outcome) outcome).consecutiveSuccesses) := by
  cases outcome with
  | false => exact ⟨rfl, fun _ => rfl, fun _ => rfl⟩
  | true =>
    cases hstate : backend.isHealthy with
    | true => simp [recordResult, recordSuccess, checkOutcome, BackendHealth.reset, hstate]
    | false =>
      by_cases hthreshold : backend.consecutiveSuccesses + 1 ≥ 3 <;>
        simp [recordResult, recordSuccess, checkOutcome, BackendHealth.reset, hstate, hthreshold,
          poolThresholds]

theorem CountsStreak.recordResult (h : CountsStreak poolThresholds outcomes backend)
    (outcome : Bool) :
    CountsStreak poolThresholds (outcomes ++ [outcome]) (recordResult backend outcome) ∧
      FlipsRightly poolThresholds (outcomes ++ [outcome]) backend
        (Upstream.recordResult backend outcome) := by
  have hF : 0 < poolThresholds.failureThreshold := by decide
  have hR : 0 < poolThresholds.recoveryThreshold := by decide
  have hchecked : CountsStreak poolThresholds (outcomes ++ [outcome])
        (Upstream.checkOutcome poolThresholds (backend.reset outcome) outcome) ∧
      FlipsRightly poolThresholds (outcomes ++ [outcome]) (backend.reset outcome)
        (Upstream.checkOutcome poolThresholds (backend.reset outcome) outcome) := by
    cases outcome <;> cases hstate : backend.isHealthy
    case false.false =>
      refine ⟨.failure_unhealthy hstate (.inl rfl) hR, flipsRightly_unchanged hF hR ?_ hstate.symm⟩
      simp [Upstream.checkOutcome, BackendHealth.reset, hstate]
    case false.true =>
      have hcounts : CountsStreak poolThresholds outcomes (backend.reset false) := by
        refine ⟨h.failures, fun hfalse => ?_⟩
        rw [show (backend.reset false).isHealthy = backend.isHealthy from rfl, hstate] at hfalse
        cases hfalse
      exact hcounts.failure_healthy hstate (.inl rfl) hR
    case true.false =>
      have hcounts : CountsStreak poolThresholds outcomes (backend.reset true) := by
        refine ⟨fun hfalse => ?_, h.successes⟩
        rw [show (backend.reset true).isHealthy = backend.isHealthy from rfl, hstate] at hfalse
        cases hfalse
      exact hcounts.success_unhealthy hF hstate
    case true.true =>
      refine ⟨.success_healthy hF hstate rfl, flipsRightly_unchanged hF hR ?_ hstate.symm⟩
      simp [Upstream.checkOutcome, BackendHealth.reset, hstate]
  obtain ⟨hstate, hfailures, hsuccesses⟩ := recordResult_eq backend outcome
  have hreset : (backend.reset outcome).isHealthy = backend.isHealthy := by
    cases outcome <;> rfl
  refine ⟨⟨fun hhealthy => ?_, fun hunhealthy => ?_⟩, ⟨?_, ?_⟩⟩
  · rw [hfailures hhealthy]
    exact hchecked.1.failures (hstate ▸ hhealthy)
  · rw [hsuccesses hunhealthy]
    exact hchecked.1.successes (hstate ▸ hunhealthy)
  · rw [hstate, ← hreset]
    exact hchecked.2.fails
  · rw [hstate, ← hreset]
    exact hchecked.2.recovers

end pool

/-- The pool follows the law on every sequence of results. -/
theorem recordResult_flips (outcomes : List Bool) (outcome : Bool) :
    FlipsRightly poolThresholds (outcomes ++ [outcome]) (outcomes.foldl recordResult .new)
      ((outcomes ++ [outcome]).foldl recordResult .new) := by
  have hcounts : CountsStreak poolThresholds outcomes (outcomes.foldl recordResult .new) := by
    induction outcomes using List.reverseRecOn with
    | nil => exact ⟨fun _ => ⟨rfl, by decide⟩, fun hfalse => by cases hfalse⟩
    | append_singleton outcomes outcome ih =>
      rw [List.foldl_append]
      exact (ih.recordResult outcome).1
  rw [List.foldl_append]
  exact (hcounts.recordResult outcome).2

end Synvoid.Upstream
