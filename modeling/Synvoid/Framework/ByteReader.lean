import Mathlib.Algebra.Group.Nat.Defs
import Mathlib.Data.List.Basic

/-! # Reading bytes from the front

    A reader is the list of the bytes that are left. `readExact` takes a given
    number of them or fails. Numbers are written with the low byte first
    (`leBytes`, `leValue`), and come back if they fit (`leValue_leBytes`).
    `readMany` repeats a reader; it reads back what was written item by item
    (`readMany_flatMap`).
-/

namespace Synvoid.Framework

/-- `Read::read_exact`: the bytes read, and those that are left. -/
def readExact (n : Nat) (data : List UInt8) : Option (List UInt8 × List UInt8) :=
  if n ≤ data.length then some (data.take n, data.drop n) else none

theorem readExact_append {n : Nat} {bytes : List UInt8} (h : bytes.length = n)
    (rest : List UInt8) : readExact n (bytes ++ rest) = some (bytes, rest) := by
  subst h
  simp [readExact]

/-- `to_le_bytes` of a number with `width` bytes. -/
def leBytes : Nat → Nat → List UInt8
  | 0, _ => []
  | width + 1, n => UInt8.ofNat (n % 256) :: leBytes width (n / 256)

/-- `from_le_bytes`. -/
def leValue : List UInt8 → Nat
  | [] => 0
  | byte :: bytes => byte.toNat + 256 * leValue bytes

@[simp]
theorem length_leBytes (width n : Nat) : (leBytes width n).length = width := by
  induction width generalizing n with
  | zero => rfl
  | succ width ih => rw [leBytes, List.length_cons, ih]

theorem leValue_leBytes {width n : Nat} (h : n < 256 ^ width) :
    leValue (leBytes width n) = n := by
  induction width generalizing n with
  | zero =>
    obtain rfl : n = 0 := by simpa using h
    rfl
  | succ width ih =>
    have hrest : n / 256 < 256 ^ width := by
      rw [Nat.div_lt_iff_lt_mul (by decide), ← Nat.pow_succ]
      exact h
    rw [leBytes, leValue, ih hrest]
    have hlow : (UInt8.ofNat (n % 256)).toNat = n % 256 := by simp
    rw [hlow]
    exact Nat.mod_add_div n 256

/-- A field behind its length of two bytes, the low one first. -/
def readField16 (data : List UInt8) : Option (List UInt8 × List UInt8) := do
  let (length, data) ← readExact 2 data
  readExact (leValue length) data

theorem readField16_append {bytes : List UInt8} (h : bytes.length < 65536) (rest : List UInt8) :
    readField16 (leBytes 2 bytes.length ++ (bytes ++ rest)) = some (bytes, rest) := by
  unfold readField16
  rw [readExact_append (length_leBytes 2 _)]
  simp only [Option.bind_eq_bind, Option.bind_some]
  rw [leValue_leBytes h, readExact_append rfl]

section readMany

universe u

variable {α : Type u}

/-- `count` items one behind the other. -/
def readMany (read : List UInt8 → Option (α × List UInt8)) :
    Nat → List UInt8 → Option (List α × List UInt8)
  | 0, data => some ([], data)
  | count + 1, data => do
      let (item, data) ← read data
      let (items, data) ← readMany read count data
      return (item :: items, data)

theorem readMany_flatMap {read : List UInt8 → Option (α × List UInt8)} {write : α → List UInt8}
    {items : List α}
    (h : ∀ item ∈ items, ∀ rest, read (write item ++ rest) = some (item, rest))
    (rest : List UInt8) :
    readMany read items.length (items.flatMap write ++ rest) = some (items, rest) := by
  induction items with
  | nil => rfl
  | cons item items ih =>
    obtain ⟨hitem, hitems⟩ := List.forall_mem_cons.mp h
    rw [List.flatMap_cons, List.append_assoc, List.length_cons, readMany, hitem]
    simp only [Option.bind_eq_bind, Option.bind_some]
    rw [ih hitems]
    rfl

end readMany

end Synvoid.Framework
