import Synvoid.Framework.BitOrder
import Synvoid.Routing.NodeId

/-! # Targets of the bucket refresh

    A bucket with few contacts is refreshed by a search for a random id in it
    (`NodeId::generate_random_in_bucket`). The id starts with the bits of the
    local id up to the one where it is to diverge.

    Buckets are counted from the other end: the bucket of an id that has `n`
    leading bits in common with the local one is `255 - n`. The source takes
    the index of the bucket itself for the bit of divergence, so a target for
    bucket `i` is in bucket `255 - i` (`val_bucketIndex_generateRandomInBucket`).
-/

namespace Synvoid.Routing

open Synvoid.Framework Synvoid.Mesh

/-! ## Section 1: The target -/

/-- One bit is replaced by the bit of `byte` at the same place. -/
def replaceBit (id : Bytes) (bit : Nat) (byte : UInt8) : Bytes :=
  let mask : UInt8 := 1 <<< UInt8.ofNat (7 - bit % 8)
  id.modify (bit / 8) fun b => (b &&& ~~~mask) ||| (byte &&& mask)

@[simp]
theorem length_replaceBit (id : Bytes) (bit : Nat) (byte : UInt8) :
    (replaceBit id bit byte).length = id.length := by
  simp [replaceBit]

/-- The loop over the bits before the divergence. -/
def copyBits (localBytes : Bytes) (count : Nat) (id : Bytes) : Bytes :=
  (List.range count).foldl (fun id bit => replaceBit id bit (localBytes.getD (bit / 8) 0)) id

theorem copyBits_succ (localBytes : Bytes) (count : Nat) (id : Bytes) :
    copyBits localBytes (count + 1) id =
      replaceBit (copyBits localBytes count id) count (localBytes.getD (count / 8) 0) := by
  unfold copyBits
  rw [List.range_succ, List.foldl_append]
  rfl

@[simp]
theorem length_copyBits (localBytes : Bytes) (count : Nat) (id : Bytes) :
    (copyBits localBytes count id).length = id.length := by
  induction count with
  | zero => rfl
  | succ count ih => rw [copyBits_succ, length_replaceBit, ih]

/-- The random bytes are an argument. -/
def NodeId.generateRandomInBucket (bucketIndex : Nat) (localId random : NodeId) : NodeId :=
  let prefixLen := 255 - bucketIndex
  let divergenceBit := 255 - prefixLen
  let id := copyBits localId.bytes divergenceBit random.bytes
  ⟨replaceBit id divergenceBit (~~~ localId.bytes.getD (divergenceBit / 8) 0), by
    rw [length_replaceBit, length_copyBits, random.length_bytes]⟩

/-! ## Section 2: Its bits -/

theorem testBit_mask : ∀ m < 8, ∀ j < 8,
    (1 <<< UInt8.ofNat m : UInt8).toNat.testBit j = decide (j = m) ∧
    (~~~(1 <<< UInt8.ofNat m : UInt8)).toNat.testBit j = decide (j ≠ m) := by
  decide +kernel

theorem testBit_not : ∀ n < 256, ∀ j < 8,
    (~~~ UInt8.ofNat n).toNat.testBit j = !(UInt8.ofNat n).toNat.testBit j := by
  decide +kernel

theorem bitAt_replaceBit {id : Bytes} {bit : Nat} (h : bit / 8 < id.length)
    (byte : UInt8) (k : Nat) :
    bitAt (replaceBit id bit byte) k =
      if k = bit then byte.toNat.testBit (7 - bit % 8) else bitAt id k := by
  have hm : 7 - bit % 8 < 8 := by omega
  have hk : 7 - k % 8 < 8 := by omega
  obtain ⟨hmask, hrest⟩ := testBit_mask _ hm _ hk
  unfold bitAt replaceBit
  rw [List.getD_eq_getElem?_getD, List.getElem?_modify]
  by_cases hbyte : bit / 8 = k / 8
  · rw [List.getD_eq_getElem?_getD, ← hbyte, List.getElem?_eq_getElem h]
    simp only [if_true, Option.map_eq_map, Option.map_some, Option.getD_some, UInt8.toNat_or,
      UInt8.toNat_and, Nat.testBit_or, Nat.testBit_and, hmask, hrest]
    by_cases hbit : k = bit
    · subst hbit
      simp
    · have hne : 7 - k % 8 ≠ 7 - bit % 8 := by omega
      simp [hbit, hne]
  · have hbit : k ≠ bit := by
      rintro rfl
      exact hbyte rfl
    simp only [if_neg hbyte, if_neg hbit, Option.map_eq_map, Option.map_id',
      List.getD_eq_getElem?_getD]

theorem bitAt_copyBits (localBytes : Bytes) {id : Bytes} {count : Nat}
    (hcount : count ≤ 8 * id.length) (k : Nat) :
    bitAt (copyBits localBytes count id) k =
      if k < count then bitAt localBytes k else bitAt id k := by
  induction count with
  | zero => rfl
  | succ count ih =>
    rw [copyBits_succ, bitAt_replaceBit (by rw [length_copyBits]; omega), ih (by omega)]
    by_cases hk : k = count
    · subst hk
      rw [if_pos rfl, if_pos (Nat.lt_succ_self k)]
      rfl
    · rw [if_neg hk]
      by_cases hlt : k < count
      · rw [if_pos hlt, if_pos (by omega)]
      · rw [if_neg hlt, if_neg (by omega)]

namespace NodeId

theorem bitAt_generateRandomInBucket {i : Nat} (hi : i ≤ 255) (localId random : NodeId) :
    (∀ k < i, bitAt (generateRandomInBucket i localId random).bytes k = bitAt localId.bytes k) ∧
    bitAt (generateRandomInBucket i localId random).bytes i = !bitAt localId.bytes i := by
  have hdivergence : 255 - (255 - i) = i := by omega
  have hrandom : random.bytes.length = 32 := random.length_bytes
  have hin : i / 8 < (copyBits localId.bytes i random.bytes).length := by
    rw [length_copyBits]
    omega
  unfold generateRandomInBucket
  simp only [hdivergence]
  refine ⟨?_, ?_⟩
  · intro k hk
    rw [bitAt_replaceBit hin, if_neg (by omega), bitAt_copyBits localId.bytes (by omega), if_pos hk]
  · rw [bitAt_replaceBit hin, if_pos rfl]
    have hnot := testBit_not _ (localId.bytes.getD (i / 8) 0).toNat_lt (7 - i % 8) (by omega)
    rwa [UInt8.ofNat_toNat] at hnot

/-! ## Section 3: Its bucket -/

/-- The bits of an id, as a number, from the high end. -/
theorem testBit_value (id : NodeId) {i : Nat} (hi : i ≤ 255) :
    id.value.testBit (255 - i) = bitAt id.bytes i := by
  have hlength : id.bytes.length = 32 := id.length_bytes
  have hbit : i < 8 * id.bytes.length := by omega
  have h := testBit_beValue hbit
  rw [hlength] at h
  exact h

/-- The first bit in which an id differs from the local one gives its bucket. -/
theorem val_bucketIndex_of_bitAt {id localId : NodeId} {i : Nat} (hi : i ≤ 255)
    (hsame : ∀ k < i, bitAt id.bytes k = bitAt localId.bytes k)
    (hdiffer : bitAt id.bytes i = !bitAt localId.bytes i) :
    (id.bucketIndex localId).val = 255 - i := by
  rw [val_bucketIndex]
  apply log2_eq_of_testBit
  · rw [Nat.testBit_xor, testBit_value _ hi, testBit_value _ hi, hdiffer]
    simp
  · intro j hj
    rcases Nat.lt_or_ge 255 j with hhigh | hlow
    · -- both numbers have 256 bits
      have hbound : ∀ id : NodeId, id.value.testBit j = false := by
        intro id
        apply Nat.testBit_lt_two_pow
        have hlength : id.bytes.length = 32 := id.length_bytes
        calc id.value < 256 ^ id.bytes.length := beValue_lt id.bytes
          _ = 2 ^ (8 * 32) := by rw [hlength, two_pow_eq_pow_256]
          _ ≤ 2 ^ j := Nat.pow_le_pow_right (by decide) hhigh
      rw [Nat.testBit_xor, hbound, hbound]
      rfl
    · have hk : 255 - j < i := by omega
      have hj' : 255 - (255 - j) = j := by omega
      have hbit := hsame (255 - j) hk
      rw [← testBit_value _ (by omega), ← testBit_value _ (by omega), hj'] at hbit
      rw [Nat.testBit_xor, hbit]
      simp

/-- A target for one bucket is in the bucket with this index from the other
    end. -/
theorem val_bucketIndex_generateRandomInBucket {i : Nat} (hi : i ≤ 255) (localId random : NodeId) :
    ((generateRandomInBucket i localId random).bucketIndex localId).val = 255 - i := by
  obtain ⟨hsame, hdiffer⟩ := bitAt_generateRandomInBucket hi localId random
  exact val_bucketIndex_of_bitAt hi hsame hdiffer

/-- **No target is in the bucket that it is for**, since 255 is odd. -/
theorem generateRandomInBucket_misses {i : Nat} (hi : i ≤ 255) (localId random : NodeId) :
    ((generateRandomInBucket i localId random).bucketIndex localId).val ≠ i := by
  rw [val_bucketIndex_generateRandomInBucket hi]
  omega

/-- The id of the source's own test. -/
def alternating : NodeId := ⟨List.replicate 32 0xAA, rfl⟩

theorem farthest_bucket_misses :
    ((generateRandomInBucket 255 alternating alternating).bucketIndex alternating).val ≠ 255 :=
  generateRandomInBucket_misses (by decide) alternating alternating

/-- A target for the nearest bucket is in the farthest one. -/
theorem nearest_bucket_target_far :
    ((generateRandomInBucket 0 alternating alternating).bucketIndex alternating).val = 255 ∧
      ¬ ((generateRandomInBucket 0 alternating alternating).bucketIndex alternating).val = 0 := by
  have h := val_bucketIndex_generateRandomInBucket (i := 0) (by decide) alternating alternating
  exact ⟨h, by rw [h]; decide⟩

end NodeId

end Synvoid.Routing
