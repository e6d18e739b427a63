import Synvoid.Framework.BigEndian
import Synvoid.Framework.ByteReader
import Synvoid.Mesh.HybridSignature

/-! # Node ids and their distance

    A node id has 32 bytes. The distance of two ids is their exclusive or,
    compared as byte arrays are, from the first byte on. The bucket of an id is
    given by the length of the prefix that it has in common with the local id.

    As big-endian numbers, ids have the exclusive or of the numbers for their
    distance, and its leading bit for their bucket (`value_xorDistance`,
    `val_bucketIndex`). So bucket 0 is for the one id that differs in the last
    bit (`eq_of_bucketIndex_zero`), and what is in a bucket above the one of a
    target is farther from it than bucket 0 (`xorDistance_lt_of_bucketIndex`).
    Buckets follow the order of the distances to the local id
    (`buckets_follow_distances`).
-/

namespace Synvoid.Routing

open Synvoid.Framework Synvoid.Mesh

def nodeIdLen : Nat := 32

structure NodeId where
  bytes : List UInt8
  length_bytes : bytes.length = nodeIdLen
  deriving DecidableEq

/-- The function `Sha256::digest`. -/
structure Sha256 where
  digest : Bytes → Bytes
  length_digest : ∀ data, (digest data).length = 32

namespace NodeId

theorem ext_bytes {a b : NodeId} (h : a.bytes = b.bytes) : a = b := by
  cases a
  cases b
  cases h
  rfl

def fromNodeIdString (sha256 : Sha256) (s : String) : NodeId :=
  ⟨sha256.digest (asBytes s), sha256.length_digest _⟩

/-! ## Section 1: The order of ids -/

/-- `cmp` of byte arrays. -/
instance : LinearOrder NodeId :=
  LinearOrder.lift' (fun id => id.bytes.map UInt8.toNat) (by
    intro a b h
    apply ext_bytes
    exact (List.map_injective_iff.mpr fun _ _ hbyte => UInt8.toNat_inj.mp hbyte) h)

def xorDistance (a b : NodeId) : NodeId :=
  ⟨List.zipWith (· ^^^ ·) a.bytes b.bytes, by
    rw [List.length_zipWith, a.length_bytes, b.length_bytes, Nat.min_self]⟩

/-- The number that the bytes are. -/
def value (id : NodeId) : Nat := beValue id.bytes

theorem lt_iff_value_lt {a b : NodeId} : a < b ↔ a.value < b.value :=
  lex_lt_iff_beValue_lt (a.length_bytes.trans b.length_bytes.symm)

theorem value_injective : Function.Injective value := by
  intro a b h
  rcases lt_trichotomy a b with hlt | heq | hlt
  · exact absurd h (lt_iff_value_lt.mp hlt).ne
  · exact heq
  · exact absurd h (lt_iff_value_lt.mp hlt).ne'

theorem value_xorDistance (a b : NodeId) : (a.xorDistance b).value = a.value ^^^ b.value :=
  beValue_zipWith_xor (a.length_bytes.trans b.length_bytes.symm)

/-- Different ids are at different distances. -/
theorem xorDistance_injective (target : NodeId) : Function.Injective (xorDistance target) := by
  intro a b h
  have hvalue : target.value ^^^ a.value = target.value ^^^ b.value := by
    rw [← value_xorDistance, ← value_xorDistance, h]
  apply value_injective
  rw [← Nat.xor_xor_cancel_left target.value a.value, hvalue, Nat.xor_xor_cancel_left]

/-! ## Section 2: Buckets -/

/-- The first set bit of a byte, from the high end. -/
def firstBit (xorByte : UInt8) : Option Nat :=
  (List.range 8).find? fun bitIdx => xorByte &&& (0x80 >>> UInt8.ofNat bitIdx) ≠ 0

/-- The loop over the bytes, from a given index on. -/
def commonPrefixLenFrom : Nat → List UInt8 → List UInt8 → Nat
  | byteIdx, a :: as, b :: bs =>
      if a ^^^ b ≠ 0 then
        match firstBit (a ^^^ b) with
        | some bitIdx => byteIdx * 8 + bitIdx
        | none => nodeIdLen * 8
      else commonPrefixLenFrom (byteIdx + 1) as bs
  | _, _, _ => nodeIdLen * 8

def commonPrefixLen (a b : NodeId) : Nat := commonPrefixLenFrom 0 a.bytes b.bytes

def bucketIndex (id localId : NodeId) : Fin 256 :=
  ⟨255 - min (localId.commonPrefixLen id) 255, by omega⟩

theorem firstBit_ofNat : ∀ n < 256, n ≠ 0 → firstBit (UInt8.ofNat n) = some (7 - n.log2) := by
  decide +kernel

theorem firstBit_eq {x : UInt8} (hx : x ≠ 0) : firstBit x = some (7 - x.toNat.log2) := by
  have h := firstBit_ofNat x.toNat x.toNat_lt (fun hzero => hx (UInt8.toNat_inj.mp hzero))
  rwa [UInt8.ofNat_toNat] at h

/-- The first bit that differs is the leading one of the exclusive or. -/
theorem commonPrefixLenFrom_eq {i : Nat} {as bs : List UInt8} (hlength : as.length = bs.length)
    (hi : i + as.length = 32) :
    255 - min (commonPrefixLenFrom i as bs) 255 =
      (beValue (List.zipWith (· ^^^ ·) as bs)).log2 := by
  induction as generalizing i bs with
  | nil =>
    obtain rfl : bs = [] := List.length_eq_zero_iff.mp hlength.symm
    rfl
  | cons a as ih =>
    cases bs with
    | nil => cases hlength
    | cons b bs =>
      have hlength' : as.length = bs.length := by simpa using hlength
      rw [List.length_cons] at hi
      rw [commonPrefixLenFrom, List.zipWith_cons_cons]
      by_cases hbyte : a ^^^ b ≠ 0
      · have hrest : (List.zipWith (· ^^^ ·) as bs).length = as.length := by
          rw [List.length_zipWith, hlength', Nat.min_self]
        have hlog : (a ^^^ b).toNat.log2 < 8 := by
          rw [Nat.log2_lt fun hzero => hbyte (UInt8.toNat_inj.mp hzero)]
          exact (a ^^^ b).toNat_lt
        rw [if_pos hbyte, firstBit_eq hbyte, log2_beValue_cons hbyte, hrest]
        simp only
        omega
      · have hzero : a ^^^ b = 0 := not_not.mp hbyte
        rw [if_neg hbyte, ih hlength' (by omega), hzero, beValue]
        simp

/-- The bucket is the leading bit of the distance to the local id. -/
theorem val_bucketIndex (id localId : NodeId) :
    (id.bucketIndex localId).val = (localId.value ^^^ id.value).log2 := by
  rw [← value_xorDistance]
  exact commonPrefixLenFrom_eq (localId.length_bytes.trans id.length_bytes.symm)
    (by rw [localId.length_bytes, nodeIdLen])

/-- Bucket 0 has room for one id beside the local one. -/
theorem eq_of_bucketIndex_zero {a b localId : NodeId} (ha : a.bucketIndex localId = 0)
    (hb : b.bucketIndex localId = 0) (hane : a ≠ localId) (hbne : b ≠ localId) : a = b := by
  have hone : ∀ {id : NodeId}, id.bucketIndex localId = 0 → id ≠ localId →
      localId.value ^^^ id.value = 1 := by
    intro id hid hne
    have hlog := val_bucketIndex id localId
    rw [hid] at hlog
    have hpos : localId.value ^^^ id.value ≠ 0 := by
      intro hzero
      exact hne (value_injective (Nat.xor_eq_zero_iff.mp hzero).symm)
    have hlt := Nat.lt_log2_self (n := localId.value ^^^ id.value)
    rw [← hlog] at hlt
    simp at hlt
    omega
  apply value_injective
  rw [← Nat.xor_xor_cancel_left localId.value a.value, hone ha hane, ← hone hb hbne,
    Nat.xor_xor_cancel_left]

/-- A bucket above those of the target and of another id is farther from the
    target than this id. -/
theorem xorDistance_lt_of_bucketIndex {target a b localId : NodeId}
    (htarget : target.bucketIndex localId < b.bucketIndex localId)
    (ha : a.bucketIndex localId < b.bucketIndex localId) :
    target.xorDistance a < target.xorDistance b := by
  have hvia : ∀ id : NodeId, target.value ^^^ id.value =
      (localId.value ^^^ target.value) ^^^ (localId.value ^^^ id.value) := by
    intro id
    rw [Nat.xor_comm localId.value target.value, Nat.xor_assoc, Nat.xor_xor_cancel_left]
  have htarget' : (localId.value ^^^ target.value).log2 < (localId.value ^^^ b.value).log2 := by
    rw [← val_bucketIndex, ← val_bucketIndex]
    exact htarget
  have ha' : (localId.value ^^^ a.value).log2 < (localId.value ^^^ b.value).log2 := by
    rw [← val_bucketIndex, ← val_bucketIndex]
    exact ha
  rw [lt_iff_value_lt, value_xorDistance, value_xorDistance, hvia a, hvia b]
  apply lt_of_log2_lt
  rw [log2_xor_of_lt htarget']
  exact log2_xor_lt htarget' ha'

/-! ## Section 3: Buckets in the order of the distances -/

/-- Bit `i` of an id, from the low end, is set, and none above it. -/
def HighestBit (id : NodeId) (i : Nat) : Prop :=
  id.value.testBit i = true ∧ ∀ j, i < j → id.value.testBit j = false

/-- An id other than the local one is in the bucket of the highest set bit of
    its distance. -/
theorem highestBit_xorDistance_iff {id localId : NodeId} (hne : id ≠ localId) {i : Nat} :
    HighestBit (localId.xorDistance id) i ↔ (id.bucketIndex localId).val = i := by
  have hpos : localId.value ^^^ id.value ≠ 0 := by
    intro hzero
    exact hne (value_injective (Nat.xor_eq_zero_iff.mp hzero).symm)
  rw [HighestBit, value_xorDistance, val_bucketIndex]
  constructor
  · rintro ⟨hset, habove⟩
    exact log2_eq_of_testBit hset habove
  · rintro rfl
    refine ⟨Nat.testBit_log2 hpos, ?_⟩
    intro j hj
    apply Nat.testBit_lt_two_pow
    exact Nat.lt_of_lt_of_le Nat.lt_log2_self (Nat.pow_le_pow_right (by decide) hj)

/-- The nearer of two ids is in no higher bucket. -/
theorem bucketIndex_le_of_xorDistance_lt {localId a b : NodeId}
    (h : localId.xorDistance a < localId.xorDistance b) :
    a.bucketIndex localId ≤ b.bucketIndex localId := by
  by_contra hlt
  rw [not_le, ← Fin.val_fin_lt, val_bucketIndex, val_bucketIndex] at hlt
  rw [lt_iff_value_lt, value_xorDistance, value_xorDistance] at h
  exact absurd h (lt_of_log2_lt hlt).not_gt

/-- Buckets follow the distances to the local id, and two ids share one exactly
    if their distances have the same highest bit. -/
theorem buckets_follow_distances {localId a b : NodeId} (ha : a ≠ localId) (hb : b ≠ localId) :
    (localId.xorDistance a < localId.xorDistance b →
      a.bucketIndex localId ≤ b.bucketIndex localId) ∧
    ((a.bucketIndex localId).val < 256 ∧ (b.bucketIndex localId).val < 256) ∧
    (a.bucketIndex localId = b.bucketIndex localId ↔
      ∃ i, HighestBit (localId.xorDistance a) i ∧ HighestBit (localId.xorDistance b) i) := by
  refine ⟨bucketIndex_le_of_xorDistance_lt, ⟨Fin.isLt _, Fin.isLt _⟩, ?_⟩
  constructor
  · intro heq
    refine ⟨(a.bucketIndex localId).val, (highestBit_xorDistance_iff ha).mpr rfl, ?_⟩
    rw [heq]
    exact (highestBit_xorDistance_iff hb).mpr rfl
  · rintro ⟨i, hia, hib⟩
    apply Fin.ext
    rw [(highestBit_xorDistance_iff ha).mp hia, (highestBit_xorDistance_iff hb).mp hib]

/-- The id that ends in a given byte after zeros. -/
def lastByte (byte : UInt8) : NodeId := ⟨List.replicate 31 0 ++ [byte], rfl⟩

/-- Seen from zero, 2 and 3 share a bucket, which is above that of 1. -/
theorem one_two_three_buckets :
    (lastByte 1).bucketIndex (lastByte 0) ≤ (lastByte 2).bucketIndex (lastByte 0) ∧
      ∃ i, HighestBit ((lastByte 0).xorDistance (lastByte 2)) i ∧
        HighestBit ((lastByte 0).xorDistance (lastByte 3)) i :=
  ⟨(buckets_follow_distances (by decide) (by decide)).1 (lt_iff_value_lt.mpr (by decide)),
    (buckets_follow_distances (by decide) (by decide)).2.2.mp (by decide)⟩

end NodeId

end Synvoid.Routing
