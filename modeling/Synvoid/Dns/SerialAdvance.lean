import Synvoid.Dns.Transfer

/-! # Serials that advance

    The two comparisons of serials agree (`serialIsMoreRecent_eq`). The new
    serial of a zone is newer than the old one, with one exception: from 2038 on
    the clock is past the half range of 32 bits, and a zone whose serial is
    below it starts over at 1 (`StepsBack`).
-/

namespace Synvoid.Dns

open Synvoid.Framework

/-! ### Comparing serials -/

/-- `Zone::serial_is_more_recent`. -/
def serialIsMoreRecent (s1 s2 : UInt32) : Bool :=
  if s1 = s2 then false
  else
    let diff := s1 - s2
    diff < 0x80000000

theorem serialIsNewer_iff (a b : UInt32) :
    serialIsNewer a b = true ↔ 0 < (a - b).toNat ∧ (a - b).toNat < 2 ^ 31 := by
  unfold serialIsNewer
  rw [Bool.and_eq_true, bne_iff_ne, decide_eq_true_eq, UInt32.lt_iff_toNat_lt, ne_eq,
    ← UInt32.toNat_inj, Nat.pos_iff_ne_zero]
  rfl

theorem serialIsMoreRecent_eq (s1 s2 : UInt32) :
    serialIsMoreRecent s1 s2 = serialIsNewer s1 s2 := by
  unfold serialIsMoreRecent serialIsNewer
  by_cases h : s1 = s2
  · subst h
    simp
  · have hne : (s1 - s2 != 0) = true := by
      rw [bne_iff_ne, ne_eq, sub_eq_zero]
      exact h
    simp [h, hne]

/-- Newer for both comparisons. -/
def Newer (new old : UInt32) : Prop :=
  serialIsMoreRecent new old = true ∧ serialIsNewer new old = true

theorem newer_iff (new old : UInt32) :
    Newer new old ↔ 0 < (new - old).toNat ∧ (new - old).toNat < 2 ^ 31 := by
  unfold Newer
  rw [serialIsMoreRecent_eq, and_self, serialIsNewer_iff]

/-! ### The new serial -/

/-- The clock has passed the half range, and the serial has not. -/
def StepsBack (current : UInt32) (now : UInt64) : Prop :=
  0 < current ∧ current < 0x80000000 ∧ now.toUInt32 ≥ 0x80000000

/-- The serial that follows is newer. -/
theorem newer_succ (current : UInt32) : Newer (current + 1) current := by
  rw [newer_iff, add_sub_cancel_left]
  decide

theorem newer_incrementSerial_iff (current : UInt32) (now : UInt64) :
    Newer (incrementSerialRfc1982 current now) current ↔ ¬ StepsBack current now := by
  unfold incrementSerialRfc1982
  simp only
  split_ifs with hback hzero hclock
  · -- one is newer than zero, and than no other serial below the half range
    rw [newer_iff, UInt32.toNat_sub]
    have hlt : current.toNat < 2 ^ 31 := UInt32.lt_iff_toNat_lt.mp hback.1
    have hone : (1 : UInt32).toNat = 1 := rfl
    have hsteps : StepsBack current now ↔ 0 < current.toNat := by
      unfold StepsBack
      rw [UInt32.lt_iff_toNat_lt]
      exact ⟨fun h => h.1, fun h => ⟨h, hback⟩⟩
    rw [hsteps, hone]
    omega
  · subst hzero
    refine iff_of_true (newer_succ 0) ?_
    rintro ⟨hpos, -⟩
    exact absurd hpos (by decide)
  · refine iff_of_true ?_ fun hsteps => hback hsteps.2
    have hlater : current.toNat < now.toUInt32.toNat := UInt32.lt_iff_toNat_lt.mp hclock.1
    have hdiff : (now.toUInt32 - current).toNat < 2 ^ 31 := UInt32.lt_iff_toNat_lt.mp hclock.2
    rw [newer_iff]
    refine ⟨?_, hdiff⟩
    rw [UInt32.toNat_sub_of_le _ _ (UInt32.le_of_lt hclock.1)]
    omega
  · exact iff_of_true (newer_succ current) fun hsteps => hback hsteps.2

/-! ### Runs of changes -/

/-- A change of the records, and the new serial. -/
structure ZoneChange where
  records : ZoneRecords
  maxHistory : Nat
  now : UInt64
  timestamp : UInt64

def VersionedZone.change (zone : VersionedZone) (change : ZoneChange) : VersionedZone :=
  (zone.withRecords change.records).incrementSerialWithLimit change.maxHistory change.now
    change.timestamp

/-- The versions of a zone, the first of them `zone`. -/
def VersionedZone.versions : VersionedZone → List ZoneChange → List VersionedZone
  | zone, [] => [zone]
  | zone, change :: changes => zone :: (zone.change change).versions changes

/-- No change of the run finds the serial below the half range and the clock past it. -/
def NeverStepsBack : VersionedZone → List ZoneChange → Prop
  | _, [] => True
  | zone, change :: changes =>
      ¬ StepsBack zone.serial change.now ∧ NeverStepsBack (zone.change change) changes

theorem versions_newer_iff (zone : VersionedZone) (changes : List ZoneChange) :
    (zone.versions changes).IsChain (fun old new => Newer new.serial old.serial) ↔
      NeverStepsBack zone changes := by
  induction changes generalizing zone with
  | nil => exact iff_of_true (List.isChain_singleton _) trivial
  | cons change changes ih =>
    have hversions : ∃ rest, (zone.change change).versions changes =
        zone.change change :: rest := by
      cases changes with
      | nil => exact ⟨[], rfl⟩
      | cons next changes => exact ⟨_, rfl⟩
    obtain ⟨rest, hrest⟩ := hversions
    have hnext := ih (zone.change change)
    rw [hrest] at hnext
    rw [VersionedZone.versions, hrest, List.isChain_cons_cons, NeverStepsBack, hnext]
    exact and_congr_left fun _ => newer_incrementSerial_iff zone.serial change.now

/-- **Serials advance.** The two comparisons agree, and a new serial is newer than the one before
    it exactly if the clock has not passed the half range before the serial did; so it is over a
    run of changes. -/
theorem serials_advance_iff (zone : VersionedZone) (changes : List ZoneChange) :
    (∀ s1 s2, serialIsMoreRecent s1 s2 = serialIsNewer s1 s2) ∧
    (∀ current now,
      Newer (incrementSerialRfc1982 current now) current ↔ ¬ StepsBack current now) ∧
    ((zone.versions changes).IsChain (fun old new => Newer new.serial old.serial) ↔
      NeverStepsBack zone changes) :=
  ⟨serialIsMoreRecent_eq, newer_incrementSerial_iff, versions_newer_iff zone changes⟩

/-- On 19 January 2038 the serial 1700000000 becomes 1, which is older. -/
theorem serial_starts_over :
    incrementSerialRfc1982 1700000000 2147483648 = 1 ∧
      serialIsMoreRecent 1 1700000000 = false ∧ serialIsNewer 1 1700000000 = false := by
  decide

end Synvoid.Dns
