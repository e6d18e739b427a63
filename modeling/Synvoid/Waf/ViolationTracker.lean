import Synvoid.Framework.IpAddr
import Synvoid.Framework.Transition

/-! # The violation tracker

    Model of `synvoid-waf/src/violation_tracker.rs`. An entry counts the
    violations of an address and expires a window after the last of them. Only
    the check removes an expired entry; a further violation counts it on. So
    violations that are farther apart than the window do not add up as long as
    none is recorded on an expired entry (`blocks_bursts_only`).

    The shards are one map from addresses to entries. The clock is in seconds.
-/

namespace Synvoid.Waf

open Synvoid.Framework

/-! ## Section 1: The tracker -/

structure ThreatLevelEscalation where
  enabled : Bool
  violationsBeforeBlock : UInt32
  violationWindowSecs : UInt32
  excludedIps : List Str

structure ViolationEntry where
  ip : Str
  reason : Str
  threatLevelAtViolation : UInt8
  violationsCount : UInt32
  firstViolationAt : UInt64
  lastViolationAt : UInt64
  expiresAt : UInt64
  deriving DecidableEq

/-- `u32::saturating_add`. -/
def saturatingAdd32 (a b : UInt32) : UInt32 := UInt32.ofNat (min (a.toNat + b.toNat) (2 ^ 32 - 1))

/-- `u64::saturating_add`. -/
def saturatingAdd64 (a b : UInt64) : UInt64 := UInt64.ofNat (min (a.toNat + b.toNat) (2 ^ 64 - 1))

namespace ViolationEntry

def new (ip : IpAddr) (reason : Str) (threatLevel : UInt8) (windowSecs now : UInt64) :
    ViolationEntry where
  ip := ip.display
  reason := reason
  threatLevelAtViolation := threatLevel
  violationsCount := 1
  firstViolationAt := now
  lastViolationAt := now
  expiresAt := saturatingAdd64 now windowSecs

variable (entry : ViolationEntry)

def increment (threatLevel : UInt8) (windowSecs now : UInt64) : ViolationEntry :=
  { entry with
    violationsCount := saturatingAdd32 entry.violationsCount 1
    lastViolationAt := now
    threatLevelAtViolation := threatLevel
    expiresAt := saturatingAdd64 now windowSecs }

def isExpired (now : UInt64) : Bool := now > entry.expiresAt

end ViolationEntry

/-- The entries of all shards. -/
abbrev Entries := IpAddr → Option ViolationEntry

section tracker
variable (config : ThreatLevelEscalation)

def isExcluded (ip : IpAddr) : Bool := config.excludedIps.any (· == ip.display)

/-- The entries after a violation, and the count it returns. -/
def recordViolation (entries : Entries) (ip : IpAddr) (reason : Str) (threatLevel : UInt8)
    (now : UInt64) : Entries × UInt32 :=
  if isExcluded config ip then (entries, 0)
  else
    match entries ip with
    | some entry =>
        let entry := entry.increment threatLevel config.violationWindowSecs.toUInt64 now
        (Function.update entries ip (some entry), entry.violationsCount)
    | none =>
        let entry := ViolationEntry.new ip reason threatLevel
          config.violationWindowSecs.toUInt64 now
        (Function.update entries ip (some entry), entry.violationsCount)

def checkViolations (entries : Entries) (ip : IpAddr) (now : UInt64) : Entries × UInt32 :=
  if isExcluded config ip then (entries, 0)
  else
    match entries ip with
    | some entry =>
        if entry.isExpired now then (Function.update entries ip none, 0)
        else (entries, entry.violationsCount)
    | none => (entries, 0)

def shouldBlock (entries : Entries) (ip : IpAddr) (now : UInt64) : Entries × Bool :=
  if !config.enabled then (entries, false)
  else
    let (entries, violations) := checkViolations config entries ip now
    (entries, violations ≥ config.violationsBeforeBlock)

def clearViolations (entries : Entries) (ip : IpAddr) : Entries := Function.update entries ip none

/-! ### Runs -/

inductive TrackerCall where
  | recordViolation (ip : IpAddr) (reason : Str) (threatLevel : UInt8)
  | checkViolations (ip : IpAddr)
  | shouldBlock (ip : IpAddr)
  | clearViolations (ip : IpAddr)

def TrackerCall.run (entries : Entries) (now : UInt64) : TrackerCall → Entries
  | .recordViolation ip reason threatLevel =>
      (Waf.recordViolation config entries ip reason threatLevel now).1
  | .checkViolations ip => (Waf.checkViolations config entries ip now).1
  | .shouldBlock ip => (Waf.shouldBlock config entries ip now).1
  | .clearViolations ip => Waf.clearViolations entries ip

/-- The entries, and the time of the last call. -/
structure TrackerState where
  entries : Entries
  clock : UInt64

/-- Calls under a clock that never goes back, from a tracker without entries. -/
def trackerSystem : System TrackerState (UInt64 × TrackerCall) where
  init := fun s => s.entries = fun _ => none
  step := fun s (now, call) s' => s.clock ≤ now ∧ s' = ⟨call.run config s.entries now, now⟩

end tracker

/-- The times of the violations of an address since it was last cleared, the latest first. -/
def violationsSince (ip : IpAddr) : List (UInt64 × TrackerCall) → List UInt64 :=
  List.foldl (fun times (now, call) =>
    match call with
    | .recordViolation ip' _ _ => if ip' = ip then now :: times else times
    | .clearViolations ip' => if ip' = ip then [] else times
    | _ => times) []

/-- Two violations are at most a window apart. -/
def WithinWindow (windowSecs : UInt32) (later earlier : UInt64) : Prop :=
  later.toNat ≤ earlier.toNat + windowSecs.toNat

instance (windowSecs : UInt32) : DecidableRel (WithinWindow windowSecs) :=
  fun later earlier => inferInstanceAs (Decidable (later.toNat ≤ earlier.toNat + windowSecs.toNat))

/-- There are `n` violations, and neighbours among the last `n` are at most a window apart. -/
def Burst (windowSecs : UInt32) (n : Nat) (times : List UInt64) : Prop :=
  n ≤ times.length ∧ (times.take n).IsChain (WithinWindow windowSecs)

/-- A violation of the address is not recorded on an entry that has expired. -/
def CountsNoExpired (ip : IpAddr) (s : TrackerState) : UInt64 × TrackerCall → Prop
  | (now, .recordViolation ip' _ _) =>
      ip' = ip → ∀ entry, s.entries ip = some entry → entry.isExpired now = false
  | _ => True

/-! ## Section 2: Chains -/

section chain
variable {α : Type} (r : α → α → Prop) [DecidableRel r]

/-- The length of the longest beginning whose neighbours are related. -/
def chainLength : List α → Nat
  | [] => 0
  | [_] => 1
  | a :: b :: l => if r a b then chainLength (b :: l) + 1 else 1

theorem le_chainLength_iff (n : Nat) (l : List α) :
    n ≤ chainLength r l ↔ n ≤ l.length ∧ (l.take n).IsChain r := by
  induction l generalizing n with
  | nil => simp [chainLength]
  | cons a l ih =>
    cases l with
    | nil =>
      rw [chainLength, List.length_singleton]
      refine ⟨fun hn => ⟨hn, ?_⟩, fun h => h.1⟩
      match n, hn with
      | 0, _ => exact .nil
      | 1, _ => exact .singleton _
    | cons b l =>
      match n with
      | 0 => simp
      | 1 =>
        refine iff_of_true ?_ ⟨by simp, .singleton _⟩
        unfold chainLength
        split <;> omega
      | n + 2 =>
        have hnext := ih (n + 1)
        rw [chainLength, List.take_succ_cons, List.take_succ_cons, List.isChain_cons_cons]
        rw [List.take_succ_cons] at hnext
        by_cases hrel : r a b
        · rw [if_pos hrel, Nat.succ_le_succ_iff, hnext]
          simp [hrel]
        · rw [if_neg hrel]
          exact iff_of_false (by omega) fun h => hrel h.2.1

end chain

/-! ## Section 3: What a call does to the entry of an address -/

section calls
variable {config : ThreatLevelEscalation} {ip ip' : IpAddr} {entries : Entries} {now : UInt64}

theorem recordViolation_self (h : isExcluded config ip = false) (reason : Str)
    (threatLevel : UInt8) :
    (recordViolation config entries ip reason threatLevel now).1 ip =
      match entries ip with
      | some entry => some (entry.increment threatLevel config.violationWindowSecs.toUInt64 now)
      | none => some (.new ip reason threatLevel config.violationWindowSecs.toUInt64 now) := by
  unfold recordViolation
  rw [if_neg (by simp [h])]
  cases entries ip <;> simp

theorem recordViolation_other (h : ip' ≠ ip) (reason : Str) (threatLevel : UInt8) :
    (recordViolation config entries ip' reason threatLevel now).1 ip = entries ip := by
  unfold recordViolation
  split
  · rfl
  · cases entries ip' <;> exact Function.update_of_ne h.symm _ _

theorem checkViolations_self (h : isExcluded config ip = false) :
    (checkViolations config entries ip now).1 ip =
      (entries ip).filter fun entry => !entry.isExpired now := by
  unfold checkViolations
  rw [if_neg (by simp [h])]
  cases hentry : entries ip with
  | none => simp [hentry]
  | some entry =>
    by_cases hexpired : entry.isExpired now = true <;> simp [hexpired, hentry, Option.filter]

theorem checkViolations_other (h : ip' ≠ ip) :
    (checkViolations config entries ip' now).1 ip = entries ip := by
  unfold checkViolations
  split
  · rfl
  · split
    · split
      · exact Function.update_of_ne h.symm _ _
      · rfl
    · rfl

theorem shouldBlock_entries :
    (shouldBlock config entries ip' now).1 = entries ∨
      (shouldBlock config entries ip' now).1 = (checkViolations config entries ip' now).1 := by
  unfold shouldBlock
  split
  · exact .inl rfl
  · exact .inr rfl

end calls

theorem violationsSince_snoc (ip : IpAddr) (calls : List (UInt64 × TrackerCall))
    (now : UInt64) (call : TrackerCall) :
    violationsSince ip (calls ++ [(now, call)]) =
      match call with
      | .recordViolation ip' _ _ =>
          if ip' = ip then now :: violationsSince ip calls else violationsSince ip calls
      | .clearViolations ip' => if ip' = ip then [] else violationsSince ip calls
      | _ => violationsSince ip calls := by
  unfold violationsSince
  rw [List.foldl_append]
  cases call <;> rfl

/-! ## Section 4: Bursts -/

theorem toNat_saturatingAdd64 (a b : UInt64) :
    (saturatingAdd64 a b).toNat = min (a.toNat + b.toNat) (2 ^ 64 - 1) := by
  unfold saturatingAdd64
  rw [UInt64.toNat_ofNat', Nat.mod_eq_of_lt (by omega)]

theorem toNat_saturatingAdd32 (a b : UInt32) :
    (saturatingAdd32 a b).toNat = min (a.toNat + b.toNat) (2 ^ 32 - 1) := by
  unfold saturatingAdd32
  rw [UInt32.toNat_ofNat', Nat.mod_eq_of_lt (by omega)]

/-- An entry expires a window after the last violation. -/
theorem isExpired_eq_false_iff {entry : ViolationEntry} {windowSecs : UInt32} {last now : UInt64}
    (h : entry.expiresAt = saturatingAdd64 last windowSecs.toUInt64) :
    entry.isExpired now = false ↔ WithinWindow windowSecs now last := by
  have hnow := now.toNat_lt
  unfold ViolationEntry.isExpired WithinWindow
  rw [decide_eq_false_iff_not, gt_iff_lt, UInt64.lt_iff_toNat_lt, h, toNat_saturatingAdd64,
    UInt32.toNat_toUInt64]
  omega

theorem WithinWindow.mono {windowSecs : UInt32} {now now' last : UInt64} (hle : now' ≤ now)
    (h : WithinWindow windowSecs now last) : WithinWindow windowSecs now' last := by
  have := UInt64.le_iff_toNat_le.mp hle
  unfold WithinWindow at h ⊢
  omega

/-- An entry counts the last violations that are a window apart; without an entry the last
    violation, if any, is farther back. -/
def Counts (windowSecs : UInt32) (clock : UInt64) (times : List UInt64) :
    Option ViolationEntry → Prop
  | none => ∀ last rest, times = last :: rest → ¬ WithinWindow windowSecs clock last
  | some entry => ∃ last rest, times = last :: rest ∧
      entry.expiresAt = saturatingAdd64 last windowSecs.toUInt64 ∧
      entry.violationsCount.toNat = min (chainLength (WithinWindow windowSecs) times) (2 ^ 32 - 1)

section counts
variable {windowSecs : UInt32} {clock now : UInt64} {times : List UInt64}
  {entry : Option ViolationEntry}

/-- The clock moves on. -/
theorem Counts.later (h : Counts windowSecs clock times entry) (hnow : clock ≤ now) :
    Counts windowSecs now times entry := by
  cases entry with
  | some entry => exact h
  | none => exact fun last rest heq hwithin => h last rest heq (hwithin.mono hnow)

/-- A check drops an entry that has expired. -/
theorem Counts.check (h : Counts windowSecs clock times entry) (hnow : clock ≤ now) :
    Counts windowSecs now times (entry.filter fun entry => !entry.isExpired now) := by
  cases entry with
  | none => exact h.later hnow
  | some entry =>
    obtain ⟨last, rest, heq, hexpires, -⟩ := id h
    have hwithin : entry.isExpired now = false ↔ WithinWindow windowSecs now last :=
      isExpired_eq_false_iff hexpires
    by_cases hexpired : entry.isExpired now = true
    · rw [Option.filter_some_neg (by simp [hexpired])]
      rintro last' rest' heq'
      obtain ⟨rfl, -⟩ := List.cons.inj (heq.symm.trans heq')
      rw [← hwithin, hexpired]
      decide
    · rw [Option.filter_some_pos (by simp [hexpired])]
      exact h.later hnow

/-- A violation on an entry that has not expired. -/
theorem Counts.increment {entry : ViolationEntry} (h : Counts windowSecs clock times (some entry))
    (hexpired : entry.isExpired now = false) (threatLevel : UInt8) :
    Counts windowSecs now (now :: times)
      (some (entry.increment threatLevel windowSecs.toUInt64 now)) := by
  obtain ⟨last, rest, rfl, hexpires, hcount⟩ := h
  refine ⟨now, last :: rest, rfl, rfl, ?_⟩
  have hone : (1 : UInt32).toNat = 1 := rfl
  rw [chainLength, if_pos ((isExpired_eq_false_iff hexpires).mp hexpired),
    ViolationEntry.increment, toNat_saturatingAdd32, hcount, hone]
  omega

/-- A violation without an entry. -/
theorem Counts.new (h : Counts windowSecs clock times none) (hnow : clock ≤ now) (ip : IpAddr)
    (reason : Str) (threatLevel : UInt8) :
    Counts windowSecs now (now :: times)
      (some (.new ip reason threatLevel windowSecs.toUInt64 now)) := by
  refine ⟨now, times, rfl, rfl, ?_⟩
  have hlength : chainLength (WithinWindow windowSecs) (now :: times) = 1 := by
    cases times with
    | nil => rfl
    | cons last rest => exact if_neg (h.later hnow last rest rfl)
  rw [hlength]
  rfl

end counts

variable {config : ThreatLevelEscalation} {ip : IpAddr}

/-- One call keeps the count right, unless it counts an expired entry on. -/
theorem Counts.call (hexcluded : isExcluded config ip = false)
    {calls : List (UInt64 × TrackerCall)} {s : TrackerState} {now : UInt64} {call : TrackerCall}
    (h : Counts config.violationWindowSecs s.clock (violationsSince ip calls) (s.entries ip))
    (hnow : s.clock ≤ now) (hok : CountsNoExpired ip s (now, call)) :
    Counts config.violationWindowSecs now (violationsSince ip (calls ++ [(now, call)]))
      (call.run config s.entries now ip) := by
  rw [violationsSince_snoc]
  have hcheck : ∀ ip', Counts config.violationWindowSecs now (violationsSince ip calls)
      ((checkViolations config s.entries ip' now).1 ip) := by
    intro ip'
    by_cases hip : ip' = ip
    · subst hip
      rw [checkViolations_self hexcluded]
      exact h.check hnow
    · rw [checkViolations_other hip]
      exact h.later hnow
  cases call with
  | recordViolation ip' reason threatLevel =>
    show Counts _ now _ ((recordViolation config s.entries ip' reason threatLevel now).1 ip)
    by_cases hip : ip' = ip
    · subst hip
      rw [recordViolation_self hexcluded]
      simp only [if_true]
      cases hentry : s.entries ip' with
      | none =>
        rw [hentry] at h
        exact h.new hnow ip' reason threatLevel
      | some entry =>
        rw [hentry] at h
        exact h.increment (hok rfl entry hentry) threatLevel
    · rw [recordViolation_other hip]
      simp only [if_neg hip]
      exact h.later hnow
  | checkViolations ip' => exact hcheck ip'
  | shouldBlock ip' =>
    show Counts _ now _ ((shouldBlock config s.entries ip' now).1 ip)
    rcases @shouldBlock_entries config ip' s.entries now with heq | heq
    · rw [heq]
      exact h.later hnow
    · rw [heq]
      exact hcheck ip'
  | clearViolations ip' =>
    show Counts _ now _ (clearViolations s.entries ip' ip)
    unfold clearViolations
    by_cases hip : ip' = ip
    · subst hip
      rw [Function.update_self]
      simp only [if_true]
      exact fun last rest heq => by cases heq
    · rw [Function.update_of_ne (Ne.symm hip)]
      simp only [if_neg hip]
      exact h.later hnow

/-- A whole run. -/
theorem counts_of_exec (hexcluded : isExcluded config ip = false)
    {tr : List (TrackerState × (UInt64 × TrackerCall))} {s : TrackerState}
    (hrun : (trackerSystem config).Exec tr s)
    (hok : ∀ step ∈ tr, CountsNoExpired ip step.1 step.2) :
    Counts config.violationWindowSecs s.clock (violationsSince ip (tr.map Prod.snd))
      (s.entries ip) := by
  revert hok
  refine System.Exec.history (fun tr s => (∀ step ∈ tr, CountsNoExpired ip step.1 step.2) →
    Counts config.violationWindowSecs s.clock (violationsSince ip (tr.map Prod.snd))
      (s.entries ip)) ?_ ?_ hrun
  · intro s hinit _
    rw [show s.entries ip = none from congrFun hinit ip]
    exact fun last rest heq => by cases heq
  · rintro tr s ⟨now, call⟩ s' ih ⟨hnow, rfl⟩ hok
    obtain ⟨hbefore, hlast⟩ := forall_mem_snoc.mp hok
    rw [List.map_append]
    exact (ih hbefore).call hexcluded hnow hlast

/-- The check, from a count that is right. -/
theorem checkViolations_ge_iff (hexcluded : isExcluded config ip = false) {n : UInt32}
    (hn : 1 ≤ n.toNat) {entries : Entries} {clock now : UInt64} {times : List UInt64}
    (h : Counts config.violationWindowSecs clock times (entries ip)) (hnow : clock ≤ now) :
    (checkViolations config entries ip now).2 ≥ n ↔
      Burst config.violationWindowSecs n.toNat times ∧
        ∀ last rest, times = last :: rest → WithinWindow config.violationWindowSecs now last := by
  have hnot : ∀ last rest, times = last :: rest →
      ¬ WithinWindow config.violationWindowSecs now last →
      ((0 : UInt32) ≥ n ↔ Burst config.violationWindowSecs n.toNat times ∧
        ∀ last rest, times = last :: rest → WithinWindow config.violationWindowSecs now last) := by
    intro last rest heq hfar
    refine iff_of_false ?_ fun hboth => hfar (hboth.2 last rest heq)
    rw [ge_iff_le, UInt32.le_iff_toNat_le]
    exact Nat.not_le.mpr hn
  have hlt := n.toNat_lt
  unfold checkViolations
  rw [if_neg (by simp [hexcluded])]
  cases hentry : entries ip with
  | none =>
    rw [hentry] at h
    cases times with
    | nil =>
      refine iff_of_false ?_ fun hboth => Nat.not_le.mpr hn hboth.1.1
      rw [ge_iff_le, UInt32.le_iff_toNat_le]
      exact Nat.not_le.mpr hn
    | cons last rest => exact hnot last rest rfl (h.later hnow last rest rfl)
  | some entry =>
    rw [hentry] at h
    obtain ⟨last, rest, rfl, hexpires, hcount⟩ := h
    have hwithin : entry.isExpired now = false ↔
        WithinWindow config.violationWindowSecs now last := isExpired_eq_false_iff hexpires
    by_cases hexpired : entry.isExpired now = true
    · simp only [hexpired, if_true]
      exact hnot last rest rfl (by rw [← hwithin, hexpired]; decide)
    · simp only [if_neg hexpired]
      rw [ge_iff_le, UInt32.le_iff_toNat_le, hcount, Burst, ← le_chainLength_iff]
      have hrecent := hwithin.mp (Bool.eq_false_iff.mpr hexpired)
      constructor
      · intro hle
        refine ⟨by omega, ?_⟩
        rintro last' rest' heq
        obtain ⟨rfl, -⟩ := List.cons.inj heq
        exact hrecent
      · rintro ⟨hle, -⟩
        omega

/-- **Bursts of violations.** In a run in which no violation of the address is recorded on an
    expired entry, it is blocked exactly if escalation is enabled, its last violations are a burst
    and the last of them is at most a window ago. -/
theorem blocks_bursts_only (hexcluded : isExcluded config ip = false)
    (hn : 1 ≤ config.violationsBeforeBlock.toNat)
    {tr : List (TrackerState × (UInt64 × TrackerCall))} {s : TrackerState}
    (hrun : (trackerSystem config).Exec tr s)
    (hok : ∀ step ∈ tr, CountsNoExpired ip step.1 step.2) {now : UInt64} (hnow : s.clock ≤ now) :
    (shouldBlock config s.entries ip now).2 = true ↔
      config.enabled = true ∧
        Burst config.violationWindowSecs config.violationsBeforeBlock.toNat
          (violationsSince ip (tr.map Prod.snd)) ∧
        ∀ last rest, violationsSince ip (tr.map Prod.snd) = last :: rest →
          WithinWindow config.violationWindowSecs now last := by
  have hcounts := counts_of_exec hexcluded hrun hok
  unfold shouldBlock
  cases henabled : config.enabled with
  | false => simp
  | true =>
    rw [← checkViolations_ge_iff hexcluded hn hcounts hnow]
    simp

/-! ### Two runs -/

/-- Blocks after two violations within ten seconds. -/
def twoInTen : ThreatLevelEscalation := ⟨true, 2, 10, []⟩

def peer : IpAddr := .v4 ⟨[10, 0, 0, 3], rfl⟩

/-- Two violations of the address, at times 0 and `now`. -/
def twoViolations (now : UInt64) : List (TrackerState × (UInt64 × TrackerCall)) :=
  let start : TrackerState := ⟨fun _ => none, 0⟩
  let first : TrackerCall := .recordViolation peer [] 1
  [(start, (0, first)), (⟨first.run twoInTen start.entries 0, 0⟩, (now, first))]

/-- The state after them. -/
def afterTwo (now : UInt64) : TrackerState :=
  let first : TrackerCall := .recordViolation peer [] 1
  ⟨first.run twoInTen (first.run twoInTen (fun _ => none) 0) now, now⟩

theorem exec_twoViolations (now : UInt64) :
    (trackerSystem twoInTen).Exec (twoViolations now) (afterTwo now) := by
  have hstart : (trackerSystem twoInTen).Exec [] ⟨fun _ => none, 0⟩ := .nil rfl
  have hfirst := hstart.snoc (l := (0, .recordViolation peer [] 1)) ⟨UInt64.le_refl 0, rfl⟩
  exact hfirst.snoc (l := (now, .recordViolation peer [] 1)) ⟨UInt64.zero_le, rfl⟩

theorem violationsSince_twoViolations (now : UInt64) :
    violationsSince peer ((twoViolations now).map Prod.snd) = [now, 0] := rfl

theorem burst_of_two_blocks : (shouldBlock twoInTen (afterTwo 5).entries peer 5).2 = true := by
  refine (blocks_bursts_only (by decide) (by decide) (exec_twoViolations 5) ?_
    (UInt64.le_refl 5)).mpr ?_
  · -- the first violation finds no entry, the second one that expires at 10
    intro step hstep
    rcases List.mem_cons.mp hstep with rfl | hstep
    · exact fun _ entry hentry => by cases hentry
    · obtain rfl := List.mem_singleton.mp hstep
      intro _ entry hentry
      obtain rfl := Option.some.inj hentry
      decide
  · rw [violationsSince_twoViolations]
    refine ⟨rfl, ⟨by decide, by decide⟩, ?_⟩
    rintro last rest heq
    obtain ⟨rfl, -⟩ := List.cons.inj heq
    decide

/-- Two violations that are 100 seconds apart. -/
theorem distant_violations_block :
    (trackerSystem twoInTen).Exec (twoViolations 100) (afterTwo 100) ∧
      (shouldBlock twoInTen (afterTwo 100).entries peer 100).2 = true ∧
      ¬ Burst twoInTen.violationWindowSecs twoInTen.violationsBeforeBlock.toNat
        (violationsSince peer ((twoViolations 100).map Prod.snd)) := by
  refine ⟨exec_twoViolations 100, by decide, ?_⟩
  rw [violationsSince_twoViolations]
  rintro ⟨-, hchain⟩
  exact absurd hchain (by decide)

end Synvoid.Waf
