import Mathlib.Data.UInt
import Synvoid.Framework.IpAddr
import Synvoid.Framework.Table
import Synvoid.Framework.Transition

/-! # Half-open connections

    Model of `SynFloodProtector` (`synvoid-waf/src/flood/syn_flood.rs`). The
    half-open connections are counted for each address and altogether. A
    connection is admitted while no more than `half_open_max` of them are open,
    so there can be one more than that, and the count of the address is not
    looked at. The total is the sum of the counts in any case
    (`half_open_total_le`), and the bounds hold as long as there is room at every
    registration (`half_open_bounds`).

    Instants are in nanoseconds since the start of the protector.
-/

namespace Synvoid.Waf

open Synvoid.Framework

/-! ## Section 1: The protector -/

/-- `ip_to_slot` of `synvoid-utils/src/ip_utils.rs`. -/
def ipToSlot (ip : IpAddr) (numSlots : Nat) : Option Nat :=
  if numSlots = 0 then none
  else
    let isPowerOfTwo := numSlots &&& (numSlots - 1) = 0
    match ip with
    | .v4 ⟨octets, _⟩ =>
        let hash : UInt32 := octets.foldl (fun bits octet => bits <<< 8 ||| octet.toUInt32) 0
        let hash := hash * 0x9e3779b9
        if isPowerOfTwo then some ((hash >>> 16).toNat &&& (numSlots - 1))
        else some (hash.toNat % numSlots)
    | .v6 ⟨octets, _⟩ =>
        let half (octets : Framework.Bytes) : UInt64 :=
          octets.foldl (fun (bits : UInt64) octet => bits <<< 8 ||| octet.toUInt64) 0 *
            0x9e3779b97f4a7c15
        let lo := half (octets.drop 8)
        let hash := half (octets.take 8) ^^^ (lo <<< 32 ||| lo >>> 32)
        if isPowerOfTwo then some ((hash >>> 16).toNat &&& (numSlots - 1))
        else some (hash.toNat % numSlots)

inductive FloodDecision where
  | allowed
  | rateLimited
  | blackholed
  deriving DecidableEq, Repr

structure HalfOpenEntry where
  count : UInt32
  firstSeen : Nat
  lastSeen : Nat

/-- The limits that the protector is created with. -/
structure SynFloodLimits where
  perIpRate : UInt32
  globalRate : UInt32
  halfOpenMax : UInt32
  halfOpenPerIpMax : UInt32

structure SynFloodProtector where
  perIpCounters : Nat → UInt32
  globalCounter : UInt64
  halfOpenTotal : UInt32
  halfOpenIps : Table IpAddr HalfOpenEntry
  lastCleanup : UInt64
  currentWindow : UInt64

/-- `Instant::elapsed` of the start, in seconds. -/
def elapsedSecs (now : Nat) : UInt64 := UInt64.ofNat (now / 10 ^ 9)

/-- `fetch_update` with `checked_sub`. -/
def subtractChecked (total n : UInt32) : UInt32 := if n ≤ total then total - n else total

namespace SynFloodProtector

def new : SynFloodProtector where
  perIpCounters := fun _ => 0
  globalCounter := 0
  halfOpenTotal := 0
  halfOpenIps := ∅
  lastCleanup := 0
  currentWindow := 0

variable (limits : SynFloodLimits) (protector : SynFloodProtector)

def rotateWindow (nowSecs : UInt64) : SynFloodProtector :=
  if nowSecs > protector.currentWindow then
    { protector with
      currentWindow := nowSecs
      perIpCounters := fun _ => 0
      globalCounter := 0 }
  else protector

def checkSyn (ip : IpAddr) (now : Nat) : SynFloodProtector × FloodDecision :=
  let protector := protector.rotateWindow (elapsedSecs now)
  let protector := { protector with globalCounter := protector.globalCounter + 1 }
  if protector.globalCounter > limits.globalRate.toUInt64 then (protector, .rateLimited)
  else
    let slot := (ipToSlot ip 65536).getD 0
    let ipCount := protector.perIpCounters slot + 1
    let protector :=
      { protector with perIpCounters := Function.update protector.perIpCounters slot ipCount }
    if ipCount > limits.perIpRate then (protector, .rateLimited)
    else if protector.halfOpenTotal > limits.halfOpenMax then (protector, .rateLimited)
    else (protector, .allowed)

def isStale (now : Nat) (entry : HalfOpenEntry) : Bool := now - entry.lastSeen > 120 * 10 ^ 9

/-- The counts of the stale entries. -/
def removedCount (now : Nat) : UInt32 :=
  ((protector.halfOpenIps.entries.filter fun e => isStale now e.2).map fun e => e.2.count).sum

def cleanupStaleHalfOpens (now : Nat) : SynFloodProtector :=
  { protector with
    halfOpenIps := protector.halfOpenIps.retain fun _ entry => !isStale now entry
    halfOpenTotal :=
      if protector.removedCount now > 0 then
        subtractChecked protector.halfOpenTotal (protector.removedCount now)
      else protector.halfOpenTotal }

def maybeCleanup (now : Nat) : SynFloodProtector :=
  if (elapsedSecs now).toNat - protector.lastCleanup.toNat > 60 then
    { protector with lastCleanup := elapsedSecs now }.cleanupStaleHalfOpens now
  else protector

def maxHalfOpenEntries : Nat := 10000

/-- The part of `register_half_open` under the lock of the map. -/
def countHalfOpen (ip : IpAddr) (now : Nat) : SynFloodProtector :=
  let entry := (protector.halfOpenIps.lookup ip).getD ⟨0, now, now⟩
  { protector with
    halfOpenIps := protector.halfOpenIps.insert ip
      { entry with count := entry.count + 1, lastSeen := now }
    halfOpenTotal := protector.halfOpenTotal + 1 }

def registerHalfOpen (ip : IpAddr) (now : Nat) : SynFloodProtector :=
  if protector.halfOpenIps.entries.length ≥ maxHalfOpenEntries then protector
  else (protector.countHalfOpen ip now).maybeCleanup now

def completeHalfOpen (ip : IpAddr) : SynFloodProtector :=
  match protector.halfOpenIps.lookup ip with
  | none => protector
  | some entry =>
      if entry.count > 0 then
        { protector with
          halfOpenIps :=
            if entry.count - 1 = 0 then protector.halfOpenIps.erase ip
            else protector.halfOpenIps.insert ip { entry with count := entry.count - 1 }
          halfOpenTotal := subtractChecked protector.halfOpenTotal 1 }
      else { protector with halfOpenIps := protector.halfOpenIps.erase ip }

def registerAck (ip : IpAddr) : SynFloodProtector := protector.completeHalfOpen ip

/-- The half-open connections of an address. -/
def halfOpenCount (ip : IpAddr) : UInt32 :=
  (protector.halfOpenIps.lookup ip).elim 0 HalfOpenEntry.count

/-- The half-open connections of all addresses. -/
def halfOpenSum : Nat := protector.halfOpenIps.total fun entry => entry.count.toNat

end SynFloodProtector

/-! ## Section 2: Runs -/

inductive SynCall where
  | checkSyn (ip : IpAddr) (now : Nat)
  | registerHalfOpen (ip : IpAddr) (now : Nat)
  | registerAck (ip : IpAddr)
  | cleanup (now : Nat)

/-- The protector, and the address that the last call has admitted. -/
structure SynState where
  protector : SynFloodProtector
  admitted : Option IpAddr

def SynCall.next (limits : SynFloodLimits) (s : SynState) : SynCall → SynState
  | .checkSyn ip now =>
      let (protector, decision) := s.protector.checkSyn limits ip now
      ⟨protector, if decision = .allowed then some ip else none⟩
  | .registerHalfOpen ip now => ⟨s.protector.registerHalfOpen ip now, none⟩
  | .registerAck ip => ⟨s.protector.registerAck ip, none⟩
  | .cleanup now => ⟨s.protector.cleanupStaleHalfOpens now, none⟩

/-- A connection is registered directly after it was admitted. -/
def SynCall.Enabled (s : SynState) : SynCall → Prop
  | .registerHalfOpen ip _ => s.admitted = some ip
  | _ => True

def synSystem (limits : SynFloodLimits) : System SynState SynCall where
  init := fun s => s = ⟨.new, none⟩
  step := fun s call s' => call.Enabled s ∧ s' = call.next limits s

/-- The total is the sum of the counts, and neither is above its limit. -/
structure HalfOpenBounded (limits : SynFloodLimits) (protector : SynFloodProtector) : Prop where
  total_eq : protector.halfOpenTotal.toNat = protector.halfOpenSum
  total_le : protector.halfOpenTotal ≤ limits.halfOpenMax
  count_le : ∀ ip, protector.halfOpenCount ip ≤ limits.halfOpenPerIpMax

/-- A registration finds the map full and does nothing, or finds room for one more connection. -/
def HasRoom (limits : SynFloodLimits) (s : SynState) : SynCall → Prop
  | .registerHalfOpen ip _ =>
      s.protector.halfOpenIps.entries.length ≥ SynFloodProtector.maxHalfOpenEntries ∨
        (s.protector.halfOpenTotal < limits.halfOpenMax ∧
          s.protector.halfOpenCount ip < limits.halfOpenPerIpMax)
  | _ => True

/-! ## Section 3: The sum of the counts -/

section sums

/-- Counts that do not overflow together. -/
theorem toNat_sum_counts (entries : List (Sigma fun _ : IpAddr => HalfOpenEntry))
    (h : (entries.map fun e => e.2.count.toNat).sum < 2 ^ 32) :
    ((entries.map fun e => e.2.count).sum : UInt32).toNat =
      (entries.map fun e => e.2.count.toNat).sum := by
  induction entries with
  | nil => rfl
  | cons e entries ih =>
    simp only [List.map_cons, List.sum_cons] at h ⊢
    rw [UInt32.toNat_add, ih (by omega), Nat.mod_eq_of_lt h]

theorem toNat_subtractChecked {total n : UInt32} (h : n.toNat ≤ total.toNat) :
    (subtractChecked total n).toNat = total.toNat - n.toNat := by
  have hle : n ≤ total := UInt32.le_iff_toNat_le.mpr h
  unfold subtractChecked
  rw [if_pos hle, UInt32.toNat_sub_of_le _ _ hle]

end sums

namespace SynFloodProtector

variable {limits : SynFloodLimits} {protector : SynFloodProtector}

/-- The total is the sum of the counts. -/
def Counted (protector : SynFloodProtector) : Prop :=
  protector.halfOpenTotal.toNat = protector.halfOpenSum

/-- No count and not the total has grown. -/
structure Shrunk (protector protector' : SynFloodProtector) : Prop where
  total_le : protector'.halfOpenTotal.toNat ≤ protector.halfOpenTotal.toNat
  count_le : ∀ ip, (protector'.halfOpenCount ip).toNat ≤ (protector.halfOpenCount ip).toNat

theorem Shrunk.refl (protector : SynFloodProtector) : protector.Shrunk protector :=
  ⟨le_refl _, fun _ => le_refl _⟩

/-- An address has at most all connections. -/
theorem halfOpenSum_eq (ip : IpAddr) :
    protector.halfOpenSum =
      Table.total (fun entry => entry.count.toNat) (protector.halfOpenIps.erase ip) +
        (protector.halfOpenCount ip).toNat := by
  unfold halfOpenSum halfOpenCount
  rw [Table.total_erase _ _ ip]
  cases protector.halfOpenIps.lookup ip <;> rfl

/-- The count of one address is set to `c`, by an entry with this count or by none. -/
theorem set_count {protector' : SynFloodProtector} {ip : IpAddr} {c : UInt32}
    (hmap : (c = 0 ∧ protector'.halfOpenIps = protector.halfOpenIps.erase ip) ∨
      ∃ entry : HalfOpenEntry, entry.count = c ∧
        protector'.halfOpenIps = protector.halfOpenIps.insert ip entry) :
    protector'.halfOpenSum + (protector.halfOpenCount ip).toNat =
        protector.halfOpenSum + c.toNat ∧
      ∀ ip', protector'.halfOpenCount ip' =
        if ip' = ip then c else protector.halfOpenCount ip' := by
  rw [protector.halfOpenSum_eq ip]
  unfold halfOpenSum halfOpenCount
  rcases hmap with ⟨rfl, hmap⟩ | ⟨entry, rfl, hmap⟩
  · rw [hmap]
    refine ⟨?_, fun ip' => ?_⟩
    · rfl
    · rw [Table.lookup_erase_eq]
      split <;> rfl
  · rw [hmap]
    refine ⟨?_, fun ip' => ?_⟩
    · rw [Table.total_insert]
      omega
    · rw [Table.lookup_insert_eq]
      split <;> rfl

theorem checkSyn_unchanged (limits : SynFloodLimits) (ip : IpAddr) (now : Nat) :
    (protector.checkSyn limits ip now).1.halfOpenTotal = protector.halfOpenTotal ∧
      (protector.checkSyn limits ip now).1.halfOpenIps = protector.halfOpenIps := by
  have hrotate : (protector.rotateWindow (elapsedSecs now)).halfOpenTotal =
      protector.halfOpenTotal ∧
        (protector.rotateWindow (elapsedSecs now)).halfOpenIps = protector.halfOpenIps := by
    unfold rotateWindow
    split <;> exact ⟨rfl, rfl⟩
  unfold checkSyn
  simp only
  split_ifs <;> exact hrotate

theorem Counted.checkSyn (h : protector.Counted) (limits : SynFloodLimits) (ip : IpAddr)
    (now : Nat) :
    (protector.checkSyn limits ip now).1.Counted ∧
      protector.Shrunk (protector.checkSyn limits ip now).1 := by
  obtain ⟨htotal, hips⟩ := protector.checkSyn_unchanged limits ip now
  refine ⟨?_, le_of_eq (by rw [htotal]), fun ip' => le_of_eq ?_⟩
  · unfold Counted halfOpenSum at h ⊢
    rwa [htotal, hips]
  · unfold halfOpenCount
    rw [hips]

/-- What is admitted finds no more connections than `half_open_max`. -/
theorem total_le_of_allowed {ip : IpAddr} {now : Nat}
    (h : (protector.checkSyn limits ip now).2 = .allowed) :
    (protector.checkSyn limits ip now).1.halfOpenTotal ≤ limits.halfOpenMax := by
  unfold checkSyn at h ⊢
  simp only at h ⊢
  split_ifs at h ⊢ with hglobal hip htotal
  exact UInt32.not_lt.mp htotal

theorem Counted.countHalfOpen (h : protector.Counted) (ip : IpAddr) (now : Nat)
    (hroom : protector.halfOpenTotal.toNat + 1 < 2 ^ 32) :
    (protector.countHalfOpen ip now).Counted ∧
      (protector.countHalfOpen ip now).halfOpenTotal.toNat = protector.halfOpenTotal.toNat + 1 ∧
      ∀ ip', ((protector.countHalfOpen ip now).halfOpenCount ip').toNat =
        (protector.halfOpenCount ip').toNat + if ip' = ip then 1 else 0 := by
  have hentry : ((protector.halfOpenIps.lookup ip).getD ⟨0, now, now⟩).count =
      protector.halfOpenCount ip := by
    unfold halfOpenCount
    cases protector.halfOpenIps.lookup ip <;> rfl
  obtain ⟨hsum, hcounts⟩ := @set_count protector (protector.countHalfOpen ip now) ip
    (protector.halfOpenCount ip + 1) (.inr ⟨_, by rw [← hentry], rfl⟩)
  have htotal : (protector.countHalfOpen ip now).halfOpenTotal.toNat =
      protector.halfOpenTotal.toNat + 1 := by
    refine (UInt32.toNat_add _ _).trans ?_
    exact Nat.mod_eq_of_lt hroom
  have hcount : (protector.halfOpenCount ip + 1).toNat =
      (protector.halfOpenCount ip).toNat + 1 := by
    have hle := protector.halfOpenSum_eq ip
    unfold Counted at h
    rw [UInt32.toNat_add]
    refine Nat.mod_eq_of_lt ?_
    show (protector.halfOpenCount ip).toNat + 1 < 2 ^ 32
    omega
  refine ⟨?_, htotal, fun ip' => ?_⟩
  · unfold Counted at h ⊢
    omega
  · rw [hcounts]
    split
    · next hip => rw [hcount, hip]
    · rfl

theorem Counted.completeHalfOpen (h : protector.Counted) (ip : IpAddr) :
    (protector.completeHalfOpen ip).Counted ∧
      protector.Shrunk (protector.completeHalfOpen ip) := by
  have hle := protector.halfOpenSum_eq ip
  unfold Counted at h
  cases hlookup : protector.halfOpenIps.lookup ip with
  | none =>
    have heq : protector.completeHalfOpen ip = protector := by
      unfold SynFloodProtector.completeHalfOpen
      rw [hlookup]
    rw [heq]
    exact ⟨h, .refl protector⟩
  | some entry =>
    have hentry : protector.halfOpenCount ip = entry.count := by
      unfold halfOpenCount
      rw [hlookup]
      rfl
    -- the count and the total are lowered by the same number, one or zero
    have hlowered : ∃ c n : UInt32, c.toNat + n.toNat = entry.count.toNat ∧
        (protector.completeHalfOpen ip).halfOpenTotal = subtractChecked protector.halfOpenTotal n ∧
        ((c = 0 ∧
            (protector.completeHalfOpen ip).halfOpenIps = protector.halfOpenIps.erase ip) ∨
          ∃ entry' : HalfOpenEntry, entry'.count = c ∧
            (protector.completeHalfOpen ip).halfOpenIps =
              protector.halfOpenIps.insert ip entry') := by
      unfold SynFloodProtector.completeHalfOpen
      rw [hlookup]
      simp only
      split
      · next hpos =>
        have hone : (1 : UInt32) ≤ entry.count := UInt32.le_iff_toNat_le.mpr (by
          have hlt := UInt32.lt_iff_toNat_lt.mp hpos
          exact hlt)
        refine ⟨entry.count - 1, 1, ?_, rfl, ?_⟩
        · rw [UInt32.toNat_sub_of_le _ _ hone]
          exact Nat.sub_add_cancel (UInt32.le_iff_toNat_le.mp hone)
        · split
          · next hzero => exact .inl ⟨hzero, rfl⟩
          · exact .inr ⟨_, rfl, rfl⟩
      · next hpos =>
        have hzero : entry.count.toNat = 0 := by
          have hle := UInt32.le_iff_toNat_le.mp (UInt32.not_lt.mp hpos)
          exact Nat.le_zero.mp hle
        refine ⟨0, 0, hzero.symm, ?_, .inl ⟨rfl, rfl⟩⟩
        simp [subtractChecked]
    obtain ⟨c, n, hcn, htotal, hmap⟩ := hlowered
    obtain ⟨hsum, hcounts⟩ := set_count hmap
    rw [hentry] at hle hsum
    have hn : n.toNat ≤ protector.halfOpenTotal.toNat := by omega
    have htotal' := toNat_subtractChecked hn
    refine ⟨?_, ?_, fun ip' => ?_⟩
    · unfold Counted
      rw [htotal, htotal']
      omega
    · rw [htotal, htotal']
      omega
    · rw [hcounts]
      split
      · next hip =>
        rw [hip, hentry]
        omega
      · exact le_refl _

theorem Counted.cleanup (h : protector.Counted) (now : Nat) :
    (protector.cleanupStaleHalfOpens now).Counted ∧
      protector.Shrunk (protector.cleanupStaleHalfOpens now) := by
  unfold Counted at h
  have hsum := Table.total_retain (fun entry => entry.count.toNat) protector.halfOpenIps
    fun _ entry => !isStale now entry
  simp only [Bool.not_not] at hsum
  have hsum' : protector.halfOpenSum =
      Table.total (fun entry => entry.count.toNat) protector.halfOpenIps := rfl
  have hlt := protector.halfOpenTotal.toNat_lt
  have hremoved : (protector.removedCount now).toNat =
      ((protector.halfOpenIps.entries.filter fun e => isStale now e.2).map
        fun e => e.2.count.toNat).sum := toNat_sum_counts _ (by omega)
  have htotal : (protector.cleanupStaleHalfOpens now).halfOpenTotal.toNat =
      protector.halfOpenTotal.toNat - (protector.removedCount now).toNat := by
    unfold cleanupStaleHalfOpens
    simp only
    split
    · exact toNat_subtractChecked (by omega)
    · next hpos =>
      have hle := UInt32.le_iff_toNat_le.mp (UInt32.not_lt.mp hpos)
      rw [Nat.le_zero.mp hle, Nat.sub_zero]
  refine ⟨?_, by omega, fun ip => ?_⟩
  · unfold Counted
    rw [htotal, h, hsum', ← hsum, hremoved, Nat.add_sub_cancel]
    rfl
  · unfold halfOpenCount cleanupStaleHalfOpens
    simp only
    rw [Table.lookup_retain]
    cases protector.halfOpenIps.lookup ip with
    | none => exact le_refl _
    | some entry =>
      rw [Option.filter_some]
      split
      · exact le_refl _
      · exact Nat.zero_le _

theorem Counted.maybeCleanup (h : protector.Counted) (now : Nat) :
    (protector.maybeCleanup now).Counted ∧ protector.Shrunk (protector.maybeCleanup now) := by
  unfold SynFloodProtector.maybeCleanup
  split
  · have hcounted : { protector with lastCleanup := elapsedSecs now }.Counted := h
    obtain ⟨hclean, hshrunk⟩ := hcounted.cleanup now
    exact ⟨hclean, hshrunk.total_le, hshrunk.count_le⟩
  · exact ⟨h, .refl protector⟩

/-- A registration counts one connection more, or less after a cleanup. -/
theorem Counted.registerHalfOpen (h : protector.Counted) (ip : IpAddr) (now : Nat)
    (hroom : protector.halfOpenTotal.toNat + 1 < 2 ^ 32) :
    (protector.registerHalfOpen ip now).Counted ∧
      (protector.Shrunk (protector.registerHalfOpen ip now) ∨
        protector.halfOpenIps.entries.length < maxHalfOpenEntries ∧
          (protector.registerHalfOpen ip now).halfOpenTotal.toNat ≤
            protector.halfOpenTotal.toNat + 1 ∧
          ∀ ip', ((protector.registerHalfOpen ip now).halfOpenCount ip').toNat ≤
            (protector.halfOpenCount ip').toNat + if ip' = ip then 1 else 0) := by
  unfold SynFloodProtector.registerHalfOpen
  split
  · exact ⟨h, .inl (.refl protector)⟩
  · next hfull =>
    obtain ⟨hcounted, htotal, hcounts⟩ := h.countHalfOpen ip now hroom
    obtain ⟨hclean, hshrunk⟩ := hcounted.maybeCleanup now
    refine ⟨hclean, .inr ⟨Nat.lt_of_not_ge hfull, ?_, fun ip' => ?_⟩⟩
    · exact htotal ▸ hshrunk.total_le
    · exact hcounts ip' ▸ hshrunk.count_le ip'

end SynFloodProtector

/-! ## Section 4: Runs keep the bounds -/

section runs
variable {limits : SynFloodLimits}

theorem halfOpenBounded_new : HalfOpenBounded limits .new where
  total_eq := rfl
  total_le := UInt32.le_iff_toNat_le.mpr (Nat.zero_le _)
  count_le := fun _ => UInt32.le_iff_toNat_le.mpr (Nat.zero_le _)

theorem HalfOpenBounded.shrunk {protector protector' : SynFloodProtector}
    (h : HalfOpenBounded limits protector) (hcounted : protector'.Counted)
    (hshrunk : protector.Shrunk protector') : HalfOpenBounded limits protector' where
  total_eq := hcounted
  total_le := UInt32.le_iff_toNat_le.mpr
    (hshrunk.total_le.trans (UInt32.le_iff_toNat_le.mp h.total_le))
  count_le := fun ip => UInt32.le_iff_toNat_le.mpr
    ((hshrunk.count_le ip).trans (UInt32.le_iff_toNat_le.mp (h.count_le ip)))

theorem HalfOpenBounded.registerHalfOpen {protector : SynFloodProtector}
    (h : HalfOpenBounded limits protector) (ip : IpAddr) (now : Nat)
    (hroom : protector.halfOpenIps.entries.length ≥ SynFloodProtector.maxHalfOpenEntries ∨
      (protector.halfOpenTotal < limits.halfOpenMax ∧
        protector.halfOpenCount ip < limits.halfOpenPerIpMax)) :
    HalfOpenBounded limits (protector.registerHalfOpen ip now) := by
  have hcounted : protector.Counted := h.total_eq
  rcases hroom with hfull | ⟨htotal, hcount⟩
  · have heq : protector.registerHalfOpen ip now = protector := if_pos hfull
    rwa [heq]
  · have htotal' := UInt32.lt_iff_toNat_lt.mp htotal
    have hcount' := UInt32.lt_iff_toNat_lt.mp hcount
    have hmax := limits.halfOpenMax.toNat_lt
    obtain ⟨hregistered, hshrunk | ⟨-, hle, hcounts⟩⟩ :=
      hcounted.registerHalfOpen ip now (by omega)
    · exact h.shrunk hregistered hshrunk
    · refine ⟨hregistered, UInt32.le_iff_toNat_le.mpr (by omega), fun ip' => ?_⟩
      have hle' := hcounts ip'
      have hbound := UInt32.le_iff_toNat_le.mp (h.count_le ip')
      refine UInt32.le_iff_toNat_le.mpr ?_
      split at hle'
      · next hip =>
        rw [hip] at hle' ⊢
        omega
      · omega

theorem HalfOpenBounded.next {s : SynState} (h : HalfOpenBounded limits s.protector)
    (call : SynCall) (hroom : HasRoom limits s call) :
    HalfOpenBounded limits (call.next limits s).protector := by
  have hcounted : s.protector.Counted := h.total_eq
  cases call with
  | checkSyn ip now =>
    obtain ⟨hchecked, hshrunk⟩ := hcounted.checkSyn limits ip now
    exact h.shrunk hchecked hshrunk
  | registerHalfOpen ip now => exact h.registerHalfOpen ip now hroom
  | registerAck ip =>
    obtain ⟨hcompleted, hshrunk⟩ := hcounted.completeHalfOpen ip
    exact h.shrunk hcompleted hshrunk
  | cleanup now =>
    obtain ⟨hclean, hshrunk⟩ := hcounted.cleanup now
    exact h.shrunk hclean hshrunk

/-- The invariant of runs in which connections are registered without room: the total, and the
    total when one more connection is admitted. -/
structure HalfOpenCounted (limits : SynFloodLimits) (s : SynState) : Prop where
  counted : s.protector.Counted
  total_le : s.protector.halfOpenTotal.toNat ≤ limits.halfOpenMax.toNat + 1
  admitted : s.admitted.isSome → s.protector.halfOpenTotal.toNat ≤ limits.halfOpenMax.toNat

theorem HalfOpenCounted.next {s : SynState} (h : HalfOpenCounted limits s)
    (hmax : limits.halfOpenMax.toNat + 1 < 2 ^ 32) (call : SynCall) (henabled : call.Enabled s) :
    HalfOpenCounted limits (call.next limits s) := by
  cases call with
  | checkSyn ip now =>
    obtain ⟨hchecked, hshrunk⟩ := h.counted.checkSyn limits ip now
    refine ⟨hchecked, hshrunk.total_le.trans h.total_le, fun hadmitted => ?_⟩
    have hallowed : (s.protector.checkSyn limits ip now).2 = .allowed := by
      by_contra hdecision
      simp [SynCall.next, hdecision] at hadmitted
    exact UInt32.le_iff_toNat_le.mp (SynFloodProtector.total_le_of_allowed hallowed)
  | registerHalfOpen ip now =>
    have hadmitted : s.protector.halfOpenTotal.toNat ≤ limits.halfOpenMax.toNat :=
      h.admitted (by rw [show s.admitted = some ip from henabled]; rfl)
    obtain ⟨hregistered, hshrunk | ⟨-, hle, -⟩⟩ :=
      h.counted.registerHalfOpen ip now (by omega)
    · exact ⟨hregistered, hshrunk.total_le.trans h.total_le, fun hnone => by cases hnone⟩
    · exact ⟨hregistered, hle.trans (by omega), fun hnone => by cases hnone⟩
  | registerAck ip =>
    obtain ⟨hcompleted, hshrunk⟩ := h.counted.completeHalfOpen ip
    exact ⟨hcompleted, hshrunk.total_le.trans h.total_le, fun hnone => by cases hnone⟩
  | cleanup now =>
    obtain ⟨hclean, hshrunk⟩ := h.counted.cleanup now
    exact ⟨hclean, hshrunk.total_le.trans h.total_le, fun hnone => by cases hnone⟩

end runs

/-- In every run the total is the sum of the counts, and at most one above its limit. -/
theorem half_open_total_le (limits : SynFloodLimits) (hmax : limits.halfOpenMax.toNat + 1 < 2 ^ 32)
    {tr : List (SynState × SynCall)} {s : SynState} (h : (synSystem limits).Exec tr s) :
    s.protector.halfOpenTotal.toNat = s.protector.halfOpenSum ∧
      s.protector.halfOpenTotal.toNat ≤ limits.halfOpenMax.toNat + 1 := by
  have hinv : HalfOpenCounted limits s := by
    refine System.Exec.invariant (HalfOpenCounted limits) ?_ ?_ h
    · rintro _ rfl
      exact ⟨rfl, Nat.zero_le _, fun hnone => by cases hnone⟩
    · rintro s call _ hs ⟨henabled, rfl⟩
      exact hs.next hmax call henabled
  exact ⟨hinv.counted, hinv.total_le⟩

/-- The bounds hold in every state of a run whose registrations all find room. -/
theorem half_open_bounds (limits : SynFloodLimits) {tr : List (SynState × SynCall)} {s : SynState}
    (h : (synSystem limits).Exec tr s) (hroom : ∀ step ∈ tr, HasRoom limits step.1 step.2) :
    ∀ t ∈ tr.map Prod.fst ++ [s], HalfOpenBounded limits t.protector := by
  have hrun := System.Exec.history (fun tr s => (∀ step ∈ tr, HasRoom limits step.1 step.2) →
    ∀ t ∈ tr.map Prod.fst ++ [s], HalfOpenBounded limits t.protector) ?_ ?_ h
  · exact hrun hroom
  · rintro _ rfl - t ht
    rw [List.mem_singleton.mp ht]
    exact halfOpenBounded_new
  · rintro tr s call _ hall ⟨-, rfl⟩ hroom t ht
    rw [List.forall_mem_append, List.forall_mem_singleton] at hroom
    have hbefore := hall hroom.1
    rw [List.map_append, List.map_singleton, List.mem_append, List.mem_singleton] at ht
    rcases ht with ht | rfl
    · exact hbefore t ht
    · exact (hbefore s (by simp)).next call hroom.2

/-- One half-open connection is allowed, of which each address may have all. -/
def oneConnection : SynFloodLimits := ⟨10, 10, 1, 1⟩

def firstAddress : IpAddr := .v4 ⟨[10, 0, 0, 7], rfl⟩

def afterCalls (calls : List SynCall) : SynState :=
  calls.foldl (fun s call => call.next oneConnection s) ⟨.new, none⟩

theorem exec_firstConnection :
    (synSystem oneConnection).Exec
      [(afterCalls [], .checkSyn firstAddress 0),
        (afterCalls [.checkSyn firstAddress 0], .registerHalfOpen firstAddress 0)]
      (afterCalls [.checkSyn firstAddress 0, .registerHalfOpen firstAddress 0]) := by
  have hcheck : (synSystem oneConnection).Exec [(afterCalls [], .checkSyn firstAddress 0)]
      (afterCalls [.checkSyn firstAddress 0]) := (System.Exec.nil rfl).snoc ⟨trivial, rfl⟩
  have hadmitted : (afterCalls [.checkSyn firstAddress 0]).admitted = some firstAddress := by decide
  exact hcheck.snoc ⟨hadmitted, rfl⟩

/-- The first connection of an address has room. -/
theorem first_connection_bounded :
    (synSystem oneConnection).Exec
        [(afterCalls [], .checkSyn firstAddress 0),
          (afterCalls [.checkSyn firstAddress 0], .registerHalfOpen firstAddress 0)]
        (afterCalls [.checkSyn firstAddress 0, .registerHalfOpen firstAddress 0]) ∧
      HalfOpenBounded oneConnection
        (afterCalls [.checkSyn firstAddress 0, .registerHalfOpen firstAddress 0]).protector := by
  refine ⟨exec_firstConnection, half_open_bounds oneConnection exec_firstConnection ?_ _ (by simp)⟩
  intro step hstep
  simp only [List.mem_cons, List.not_mem_nil, or_false] at hstep
  rcases hstep with rfl | rfl
  · trivial
  · exact .inr (by decide)

/-- The second connection of the address is admitted all the same. -/
theorem second_connection_admitted :
    ∃ tr s, (synSystem oneConnection).Exec tr s ∧ s.protector.halfOpenTotal = 2 ∧
      oneConnection.halfOpenMax = 1 ∧ s.protector.halfOpenCount firstAddress = 2 ∧
      oneConnection.halfOpenPerIpMax = 1 := by
  let s := afterCalls [.checkSyn firstAddress 0, .registerHalfOpen firstAddress 0]
  have hcheck : (synSystem oneConnection).step s (.checkSyn firstAddress 0)
      ((SynCall.checkSyn firstAddress 0).next oneConnection s) := ⟨trivial, rfl⟩
  have hregister : (synSystem oneConnection).step
      ((SynCall.checkSyn firstAddress 0).next oneConnection s) (.registerHalfOpen firstAddress 0)
      ((SynCall.registerHalfOpen firstAddress 0).next oneConnection
        ((SynCall.checkSyn firstAddress 0).next oneConnection s)) := by
    refine ⟨?_, rfl⟩
    show (SynCall.next oneConnection s (.checkSyn firstAddress 0)).admitted = some firstAddress
    decide
  refine ⟨_, _, (exec_firstConnection.snoc hcheck).snoc hregister, ?_, rfl, ?_, rfl⟩ <;> decide

end Synvoid.Waf
