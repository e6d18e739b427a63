import Mathlib.Data.List.Lex
import Mathlib.Data.Nat.Bitwise
import Mathlib.Data.UInt
import Mathlib.Order.Lattice

/-! # Bytes as big-endian numbers

    A list of bytes is read as a number with the high byte first (`beValue`).
    Byte lists of one length are ordered as their numbers are
    (`lex_lt_iff_beValue_lt`), and their bytewise exclusive or is that of the
    numbers (`beValue_zipWith_xor`). Numbers are written with a given number of
    bytes (`beBytes`), and come back if they fit (`beValue_beBytes`).

    The leading bit of a number is `Nat.log2`. Under exclusive or, the higher of
    two leading bits stays (`log2_xor_of_lt`).
-/

namespace Synvoid.Framework

/-! ## Section 1: Leading bits -/

/-- Exclusive or brings no higher bit. -/
theorem log2_xor_lt {a b n : Nat} (ha : a.log2 < n) (hb : b.log2 < n) : (a ^^^ b).log2 < n := by
  have hbound : ∀ {c : Nat}, c.log2 < n → c < 2 ^ n := fun hc =>
    Nat.lt_of_lt_of_le Nat.lt_log2_self (Nat.pow_le_pow_right (by decide) hc)
  by_cases hzero : a ^^^ b = 0
  · rw [hzero, Nat.log2_zero]
    omega
  · rw [Nat.log2_lt hzero]
    exact Nat.xor_lt_two_pow (hbound ha) (hbound hb)

/-- The higher leading bit stays. -/
theorem log2_xor_of_lt {a b : Nat} (h : a.log2 < b.log2) : (a ^^^ b).log2 = b.log2 := by
  have hb : b ≠ 0 := by
    rintro rfl
    simp at h
  have hbit : (a ^^^ b).testBit b.log2 = true := by
    have ha : a.testBit b.log2 = false := by
      apply Nat.testBit_lt_two_pow
      exact Nat.lt_of_lt_of_le Nat.lt_log2_self (Nat.pow_le_pow_right (by decide) h)
    rw [Nat.testBit_xor, ha, Nat.testBit_log2 hb]
    rfl
  have hge : 2 ^ b.log2 ≤ a ^^^ b := Nat.ge_two_pow_of_testBit hbit
  have hne : a ^^^ b ≠ 0 := by
    have := Nat.two_pow_pos b.log2
    omega
  have hle : (a ^^^ b).log2 < b.log2 + 1 := log2_xor_lt (by omega) (by omega)
  exact Nat.le_antisymm (Nat.le_of_lt_succ hle) ((Nat.le_log2 hne).mpr hge)

/-- A number with a lower leading bit is smaller. -/
theorem lt_of_log2_lt {a b : Nat} (h : a.log2 < b.log2) : a < b := by
  have hb : b ≠ 0 := by
    rintro rfl
    simp at h
  calc a < 2 ^ (a.log2 + 1) := Nat.lt_log2_self
    _ ≤ 2 ^ b.log2 := Nat.pow_le_pow_right (by decide) h
    _ ≤ b := Nat.log2_self_le hb

/-- The leading bit is the one above which none is set. -/
theorem log2_eq_of_testBit {n k : Nat} (hk : n.testBit k = true)
    (habove : ∀ j, k < j → n.testBit j = false) : n.log2 = k := by
  have hge : 2 ^ k ≤ n := Nat.ge_two_pow_of_testBit hk
  have hne : n ≠ 0 := by
    have := Nat.two_pow_pos k
    omega
  exact (Nat.log2_eq_iff hne).mpr ⟨hge, Nat.lt_pow_two_of_testBit n habove⟩

/-! ## Section 2: Values -/

/-- `from_be_bytes`. -/
def beValue : List UInt8 → Nat
  | [] => 0
  | byte :: bytes => 256 ^ bytes.length * byte.toNat + beValue bytes

theorem beValue_lt (bytes : List UInt8) : beValue bytes < 256 ^ bytes.length := by
  induction bytes with
  | nil => decide
  | cons byte bytes ih =>
    have hbyte := byte.toNat_lt
    rw [beValue, List.length_cons, Nat.pow_succ]
    calc 256 ^ bytes.length * byte.toNat + beValue bytes
        < 256 ^ bytes.length * byte.toNat + 256 ^ bytes.length := Nat.add_lt_add_left ih _
      _ = 256 ^ bytes.length * (byte.toNat + 1) := (Nat.mul_succ _ _).symm
      _ ≤ 256 ^ bytes.length * 256 := Nat.mul_le_mul_left _ hbyte

/-- `to_be_bytes` of a number with `width` bytes. -/
def beBytes : Nat → Nat → List UInt8
  | 0, _ => []
  | width + 1, n => UInt8.ofNat (n / 256 ^ width) :: beBytes width (n % 256 ^ width)

@[simp]
theorem length_beBytes (width n : Nat) : (beBytes width n).length = width := by
  induction width generalizing n with
  | zero => rfl
  | succ width ih => rw [beBytes, List.length_cons, ih]

theorem beValue_beBytes {width n : Nat} (h : n < 256 ^ width) :
    beValue (beBytes width n) = n := by
  induction width generalizing n with
  | zero =>
    obtain rfl : n = 0 := by simpa using h
    rfl
  | succ width ih =>
    have hhigh : n / 256 ^ width < 256 := by
      rw [Nat.div_lt_iff_lt_mul (Nat.pow_pos (by decide)), Nat.mul_comm, ← Nat.pow_succ]
      exact h
    have hbyte : (UInt8.ofNat (n / 256 ^ width)).toNat = n / 256 ^ width := by
      rw [UInt8.toNat_ofNat', Nat.mod_eq_of_lt hhigh]
    rw [beBytes, beValue, length_beBytes, hbyte, ih (Nat.mod_lt _ (Nat.pow_pos (by decide)))]
    exact Nat.div_add_mod n (256 ^ width)

theorem two_pow_eq_pow_256 (n : Nat) : 2 ^ (8 * n) = 256 ^ n := by
  rw [Nat.pow_mul]

/-- The high byte decides, and then the rest. -/
theorem beValue_cons_lt_iff {a b : UInt8} {as bs : List UInt8} (h : as.length = bs.length) :
    beValue (a :: as) < beValue (b :: bs) ↔ a < b ∨ a = b ∧ beValue as < beValue bs := by
  have has := beValue_lt as
  have hbs := beValue_lt bs
  rw [beValue, beValue, h]
  rw [h] at has
  rw [UInt8.lt_iff_toNat_lt, ← UInt8.toNat_inj]
  rcases Nat.lt_trichotomy a.toNat b.toNat with hab | hab | hab
  · have hnext := Nat.mul_le_mul_left (256 ^ bs.length) hab
    rw [Nat.mul_succ] at hnext
    omega
  · rw [hab]
    omega
  · have hnext := Nat.mul_le_mul_left (256 ^ bs.length) hab
    rw [Nat.mul_succ] at hnext
    omega

/-- Byte lists are ordered as their numbers. -/
theorem lex_lt_iff_beValue_lt {as bs : List UInt8} (h : as.length = bs.length) :
    as.map UInt8.toNat < bs.map UInt8.toNat ↔ beValue as < beValue bs := by
  induction as generalizing bs with
  | nil =>
    obtain rfl : bs = [] := List.length_eq_zero_iff.mp h.symm
    simp [beValue]
  | cons a as ih =>
    cases bs with
    | nil => cases h
    | cons b bs =>
      have hlength : as.length = bs.length := by simpa using h
      rw [beValue_cons_lt_iff hlength, ← ih hlength, List.map_cons, List.map_cons,
        List.cons_lt_cons_iff, UInt8.lt_iff_toNat_lt, UInt8.toNat_inj]

theorem beValue_zipWith_xor {as bs : List UInt8} (h : as.length = bs.length) :
    beValue (List.zipWith (· ^^^ ·) as bs) = beValue as ^^^ beValue bs := by
  induction as generalizing bs with
  | nil =>
    obtain rfl : bs = [] := List.length_eq_zero_iff.mp h.symm
    rfl
  | cons a as ih =>
    cases bs with
    | nil => cases h
    | cons b bs =>
      have hlength : as.length = bs.length := by simpa using h
      have has := beValue_lt as
      have hbs := beValue_lt bs
      rw [List.zipWith_cons_cons, beValue, beValue, beValue, ih hlength,
        List.length_zipWith, hlength,
        Nat.min_self]
      rw [hlength] at has
      rw [← two_pow_eq_pow_256] at has hbs ⊢
      apply Nat.eq_of_testBit_eq
      intro j
      rw [Nat.testBit_xor, Nat.testBit_two_pow_mul_add _ has, Nat.testBit_two_pow_mul_add _ hbs,
        Nat.testBit_two_pow_mul_add _ (Nat.xor_lt_two_pow has hbs)]
      split
      · rw [Nat.testBit_xor]
      · rw [UInt8.toNat_xor, Nat.testBit_xor]

/-- The leading bit is the one of the first byte that is not zero. -/
theorem log2_beValue_cons {byte : UInt8} (hbyte : byte ≠ 0) (bytes : List UInt8) :
    (beValue (byte :: bytes)).log2 = 8 * bytes.length + byte.toNat.log2 := by
  have hne : byte.toNat ≠ 0 := fun h => hbyte (UInt8.toNat_inj.mp h)
  have hlt := beValue_lt bytes
  have hlow := Nat.log2_self_le hne
  have hhigh : byte.toNat + 1 ≤ 2 ^ (byte.toNat.log2 + 1) := Nat.lt_log2_self
  have hlow' := Nat.mul_le_mul_left (256 ^ bytes.length) hlow
  have hhigh' := Nat.mul_le_mul_left (256 ^ bytes.length) hhigh
  rw [Nat.mul_add, Nat.mul_one] at hhigh'
  have hpos : 0 < 256 ^ bytes.length * 2 ^ byte.toNat.log2 :=
    Nat.mul_pos (Nat.pow_pos (by decide)) (Nat.two_pow_pos _)
  rw [beValue, Nat.log2_eq_iff (by omega), Nat.add_assoc, Nat.pow_add, Nat.pow_add,
    two_pow_eq_pow_256]
  omega

end Synvoid.Framework
