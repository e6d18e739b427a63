import Mathlib.Data.Nat.Basic

/-! # Arrays in a block of memory

    A region is an array of equal elements from some offset on. Its elements are
    apart from each other and from those of every region behind it. Two
    coordinates are laid out in rows.
-/

namespace Synvoid.Framework

/-- The ranges of `n` bytes from `o` on and of `n'` bytes from `o'` on have no byte in common. -/
def Apart (o n o' n' : Nat) : Prop := o + n ≤ o' ∨ o' + n' ≤ o

theorem Apart.symm {o n o' n' : Nat} (h : Apart o n o' n') : Apart o' n' o n := Or.symm h

/-- `count` elements of `size` bytes each, from `base` on. -/
structure Region where
  base : Nat
  size : Nat
  count : Nat

namespace Region

variable (r : Region)

def offset (k : Nat) : Nat := r.base + k * r.size

/-- The end of the last element. -/
def limit : Nat := r.base + r.count * r.size

variable {r}

theorem base_le_offset (k : Nat) : r.base ≤ r.offset k := Nat.le_add_right _ _

theorem offset_add_size_le {k k' : Nat} (h : k < k') : r.offset k + r.size ≤ r.offset k' := by
  unfold offset
  have hle : (k + 1) * r.size ≤ k' * r.size := Nat.mul_le_mul_right _ h
  rw [Nat.add_mul, Nat.one_mul] at hle
  omega

theorem offset_add_size_le_limit {k : Nat} (h : k < r.count) : r.offset k + r.size ≤ r.limit :=
  offset_add_size_le h

theorem apart {k k' : Nat} (h : k ≠ k') : Apart (r.offset k) r.size (r.offset k') r.size :=
  (Nat.lt_or_gt_of_ne h).imp offset_add_size_le offset_add_size_le

theorem apart_of_limit_le {r' : Region} (h : r.limit ≤ r'.base) {k : Nat} (hk : k < r.count)
    (k' : Nat) : Apart (r.offset k) r.size (r'.offset k') r'.size :=
  .inl (Nat.le_trans (offset_add_size_le_limit hk) (Nat.le_trans h (base_le_offset k')))

theorem dvd_offset {align : Nat} (hbase : align ∣ r.base) (hsize : align ∣ r.size) (k : Nat) :
    align ∣ r.offset k := Nat.dvd_add hbase (Nat.dvd_mul_left_of_dvd hsize k)

end Region

/-! ### Rows -/

theorem row_lt {rows columns row column : Nat} (hrow : row < rows) (hcolumn : column < columns) :
    row * columns + column < rows * columns := by
  have hle : (row + 1) * columns ≤ rows * columns := Nat.mul_le_mul_right _ hrow
  rw [Nat.add_mul, Nat.one_mul] at hle
  omega

theorem row_injective {columns row column row' column' : Nat} (h : column < columns)
    (h' : column' < columns) (heq : row * columns + column = row' * columns + column') :
    row = row' ∧ column = column' := by
  have hpos : 0 < columns := Nat.zero_lt_of_lt h
  have hrow : ∀ {r c : Nat}, c < columns → (r * columns + c) / columns = r := fun {r c} hc => by
    rw [Nat.mul_comm, Nat.mul_add_div hpos, Nat.div_eq_of_lt hc, Nat.add_zero]
  obtain rfl : row = row' := (hrow h).symm.trans (heq ▸ hrow h')
  exact ⟨rfl, Nat.add_left_cancel heq⟩

/-! ### Layouts -/

section layouts
variable {ι : Type} {headerLen totalLen : Nat} {size : ι → Nat} {offset : ι → Option Nat}
  {InRange : ι → Prop}

/-- The elements in range, and no others, have an offset. They are behind the header and inside the
    block, aligned to their sizes, and apart from each other. -/
structure Laid (headerLen totalLen : Nat) (size : ι → Nat) (offset : ι → Option Nat)
    (InRange : ι → Prop) : Prop where
  isSome_iff : ∀ i, (offset i).isSome = true ↔ InRange i
  behind : ∀ i o, offset i = some o → headerLen ≤ o
  inside : ∀ i o, offset i = some o → o + size i ≤ totalLen
  aligned : ∀ i o, offset i = some o → size i ∣ o
  apart : ∀ i j o o', i ≠ j → offset i = some o → offset j = some o' → Apart o (size i) o' (size j)

/-- **Layout rule.** Elements are laid out if they have places in regions that follow on each other,
    different ones in the same region. -/
theorem Laid.of_regions (place : ι → Region × Nat)
    (hoffset : ∀ i o, offset i = some o ↔ InRange i ∧ o = (place i).1.offset (place i).2)
    (hindex : ∀ i, InRange i → (place i).2 < (place i).1.count)
    (hregion : ∀ i, headerLen ≤ (place i).1.base ∧ (place i).1.limit ≤ totalLen ∧
      (place i).1.size = size i ∧ size i ∣ (place i).1.base)
    (hplaces : ∀ i j, InRange i → InRange j →
      ((place i).1 = (place j).1 ∧ ((place i).2 = (place j).2 → i = j)) ∨
        (place i).1.limit ≤ (place j).1.base ∨ (place j).1.limit ≤ (place i).1.base) :
    Laid headerLen totalLen size offset InRange where
  isSome_iff := by
    intro i
    rw [Option.isSome_iff_exists]
    exact ⟨fun ⟨o, ho⟩ => ((hoffset i o).mp ho).1, fun hi => ⟨_, (hoffset i _).mpr ⟨hi, rfl⟩⟩⟩
  behind := by
    intro i o ho
    obtain ⟨-, rfl⟩ := (hoffset i o).mp ho
    exact Nat.le_trans (hregion i).1 (Region.base_le_offset _)
  inside := by
    intro i o ho
    obtain ⟨hi, rfl⟩ := (hoffset i o).mp ho
    obtain ⟨-, hlimit, hsize, -⟩ := hregion i
    rw [← hsize]
    exact Nat.le_trans (Region.offset_add_size_le_limit (hindex i hi)) hlimit
  aligned := by
    intro i o ho
    obtain ⟨-, rfl⟩ := (hoffset i o).mp ho
    obtain ⟨-, -, hsize, hbase⟩ := hregion i
    exact Region.dvd_offset hbase (hsize ▸ Nat.dvd_refl _) _
  apart := by
    intro i j o o' hne ho ho'
    obtain ⟨hi, rfl⟩ := (hoffset i o).mp ho
    obtain ⟨hj, rfl⟩ := (hoffset j o').mp ho'
    rw [← (hregion i).2.2.1, ← (hregion j).2.2.1]
    rcases hplaces i j hi hj with ⟨hsame, hinj⟩ | hbefore | hafter
    · rw [hsame]
      exact Region.apart fun heq => hne (hinj heq)
    · exact Region.apart_of_limit_le hbefore (hindex i hi) _
    · exact (Region.apart_of_limit_le hafter (hindex j hj) _).symm

end layouts

end Synvoid.Framework
