import Synvoid.Framework.Table

/-! # Tables of counters

    One 32-bit counter for each key; a key without an entry counts zero. `raise`
    adds one and wraps around, `lower` takes it back where there is an entry, and
    `takeOne` stops at zero and drops an entry that gets there.
-/

namespace Synvoid.Framework

universe u

abbrev Counters (κ : Type u) := Table κ UInt32

namespace Counters

variable {κ : Type u} [DecidableEq κ]

def count (t : Counters κ) (k : κ) : UInt32 := (t.lookup k).getD 0

/-- `entry(k).or_insert(0).fetch_add(1)`. -/
def raise (t : Counters κ) (k : κ) : Counters κ := t.insert k (t.count k + 1)

/-- `get(k).fetch_sub(1)`. -/
def lower (t : Counters κ) (k : κ) : Counters κ :=
  match t.lookup k with
  | none => t
  | some c => t.insert k (c - 1)

/-- `fetch_update(checked_sub(1))`, then the entry is removed if it is zero. -/
def takeOne (t : Counters κ) (k : κ) : Counters κ :=
  match t.lookup k with
  | none => t
  | some c => if c = 0 then t else if c = 1 then t.erase k else t.insert k (c - 1)

@[simp] theorem count_empty (k : κ) : count (∅ : Counters κ) k = 0 := by
  unfold count
  rw [AList.lookup_empty]
  rfl

theorem count_insert (t : Counters κ) (k k' : κ) (c : UInt32) :
    count (t.insert k c) k' = if k' = k then c else t.count k' := by
  unfold count
  rw [Table.lookup_insert_eq]
  split <;> rfl

theorem count_raise (t : Counters κ) (k k' : κ) :
    (t.raise k).count k' = if k' = k then t.count k + 1 else t.count k' :=
  count_insert t k k' _

/-- A raise is taken back. -/
theorem count_lower_raise (t : Counters κ) (k k' : κ) :
    ((t.raise k).lower k).count k' = t.count k' := by
  have hentry : (t.raise k).lookup k = some (t.count k + 1) := AList.lookup_insert t
  unfold lower
  rw [hentry]
  simp only
  rw [count_insert]
  split
  · next hk => rw [hk, UInt32.add_sub_cancel]
  · next hk => rw [count_raise, if_neg hk]

theorem toNat_count_takeOne (t : Counters κ) (k k' : κ) :
    ((t.takeOne k).count k').toNat = (t.count k').toNat - if k' = k then 1 else 0 := by
  cases hentry : t.lookup k with
  | none =>
    have hzero : t.count k = 0 := by simp [count, hentry]
    simp only [takeOne, hentry]
    split
    · next hk => simp [hk, hzero]
    · rfl
  | some c =>
    have hcount : t.count k = c := by simp [count, hentry]
    simp only [takeOne, hentry]
    by_cases hzero : c = 0
    · rw [if_pos hzero]
      split
      · next hk => simp [hk, hcount, hzero]
      · rfl
    · rw [if_neg hzero]
      have hpos : 1 ≤ c.toNat := Nat.one_le_iff_ne_zero.mpr fun h0 =>
        hzero (UInt32.toNat_inj.mp h0)
      by_cases hone : c = 1
      · rw [if_pos hone]
        have herased : count (t.erase k) k' = if k' = k then 0 else t.count k' := by
          unfold count
          rw [Table.lookup_erase_eq]
          split <;> rfl
        rw [herased]
        split
        · next hk => simp [hk, hcount, hone]
        · rfl
      · rw [if_neg hone, count_insert]
        split
        · next hk =>
          have hle : (1 : UInt32) ≤ c := UInt32.le_iff_toNat_le.mpr hpos
          rw [hk, hcount, UInt32.toNat_sub_of_le _ _ hle]
          rfl
        · rfl

end Counters

end Synvoid.Framework
