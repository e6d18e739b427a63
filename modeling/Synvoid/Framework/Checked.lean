import Mathlib.Data.List.GetD
import Synvoid.Framework.Slice

/-! # Byte strings and bounds-checked access

    A program that indexes and slices a byte string stops with a panic as
    soon as an access is out of range. Such a program is modelled in
    `Checked`, whose failures are the panics, and `Safe` says that it runs
    through.

    The `safe_*` lemmas push `Safe` through a program one access at a time:
    each turns an access into its bounds and continues with the value read.
-/

namespace Synvoid.Framework

abbrev Bytes := List UInt8

/-! ### Big-endian integers -/

/-- `u16::from_be_bytes([hi, lo])`. -/
def u16FromBe (hi lo : UInt8) : UInt16 := UInt16.ofNat (hi.toNat * 256 + lo.toNat)

/-- `u16::to_be_bytes`. -/
def u16ToBe (n : UInt16) : Bytes := [UInt8.ofNat (n.toNat / 256), UInt8.ofNat (n.toNat % 256)]

/-- `u32::to_be_bytes`. -/
def u32ToBe (n : UInt32) : Bytes :=
  [UInt8.ofNat (n.toNat / 16777216), UInt8.ofNat (n.toNat / 65536 % 256),
    UInt8.ofNat (n.toNat / 256 % 256), UInt8.ofNat (n.toNat % 256)]

/-- `u32::from_be_bytes`. -/
def u32FromBe (b₀ b₁ b₂ b₃ : UInt8) : UInt32 :=
  UInt32.ofNat (b₀.toNat * 16777216 + b₁.toNat * 65536 + b₂.toNat * 256 + b₃.toNat)

@[simp] theorem length_u16ToBe (n : UInt16) : (u16ToBe n).length = 2 := rfl

@[simp] theorem length_u32ToBe (n : UInt32) : (u32ToBe n).length = 4 := rfl

theorem length_flatMap_u16ToBe (numbers : List UInt16) :
    (numbers.flatMap u16ToBe).length = 2 * numbers.length := by
  induction numbers with
  | nil => rfl
  | cons n numbers ih =>
    rw [List.flatMap_cons, List.length_append, ih, length_u16ToBe, List.length_cons]
    omega

theorem length_flatMap_u32ToBe (numbers : List UInt32) :
    (numbers.flatMap u32ToBe).length = 4 * numbers.length := by
  induction numbers with
  | nil => rfl
  | cons n numbers ih =>
    rw [List.flatMap_cons, List.length_append, ih, length_u32ToBe, List.length_cons]
    omega

theorem toNat_u16FromBe (hi lo : UInt8) : (u16FromBe hi lo).toNat = hi.toNat * 256 + lo.toNat := by
  have hhi := hi.toNat_lt
  have hlo := lo.toNat_lt
  unfold u16FromBe
  rw [UInt16.toNat_ofNat', Nat.mod_eq_of_lt (by omega)]

theorem u16FromBe_u16ToBe (n : UInt16) :
    u16FromBe (UInt8.ofNat (n.toNat / 256)) (UInt8.ofNat (n.toNat % 256)) = n := by
  have hlt := n.toNat_lt
  apply UInt16.toNat_inj.mp
  rw [toNat_u16FromBe, UInt8.toNat_ofNat', UInt8.toNat_ofNat']
  omega

theorem u16ToBe_u16FromBe (hi lo : UInt8) : u16ToBe (u16FromBe hi lo) = [hi, lo] := by
  have h₀ := hi.toNat_lt
  have h₁ := lo.toNat_lt
  unfold u16ToBe
  rw [toNat_u16FromBe]
  simp only [List.cons.injEq, and_true]
  refine ⟨?_, ?_⟩ <;>
    · apply UInt8.toNat_inj.mp
      rw [UInt8.toNat_ofNat']
      omega

/-! ### Little-endian integers -/

/-- `u32::from_le_bytes`. -/
def u32FromLe (b₀ b₁ b₂ b₃ : UInt8) : UInt32 :=
  UInt32.ofNat (b₀.toNat + b₁.toNat * 256 + b₂.toNat * 65536 + b₃.toNat * 16777216)

/-- `u32::to_le_bytes`. -/
def u32ToLe (n : UInt32) : Bytes :=
  [UInt8.ofNat (n.toNat % 256), UInt8.ofNat (n.toNat / 256 % 256),
    UInt8.ofNat (n.toNat / 65536 % 256), UInt8.ofNat (n.toNat / 16777216)]

@[simp] theorem length_u32ToLe (n : UInt32) : (u32ToLe n).length = 4 := rfl

theorem u32FromLe_u32ToLe (n : UInt32) :
    u32FromLe (UInt8.ofNat (n.toNat % 256)) (UInt8.ofNat (n.toNat / 256 % 256))
      (UInt8.ofNat (n.toNat / 65536 % 256)) (UInt8.ofNat (n.toNat / 16777216)) = n := by
  have hlt := n.toNat_lt
  apply UInt32.toNat_inj.mp
  unfold u32FromLe
  simp only [UInt8.toNat_ofNat']
  rw [UInt32.toNat_ofNat']
  omega

theorem u32ToLe_u32FromLe (b₀ b₁ b₂ b₃ : UInt8) :
    u32ToLe (u32FromLe b₀ b₁ b₂ b₃) = [b₀, b₁, b₂, b₃] := by
  have h₀ := b₀.toNat_lt
  have h₁ := b₁.toNat_lt
  have h₂ := b₂.toNat_lt
  have h₃ := b₃.toNat_lt
  have hn : (u32FromLe b₀ b₁ b₂ b₃).toNat =
      b₀.toNat + b₁.toNat * 256 + b₂.toNat * 65536 + b₃.toNat * 16777216 := by
    unfold u32FromLe
    rw [UInt32.toNat_ofNat', Nat.mod_eq_of_lt (by omega)]
  unfold u32ToLe
  rw [hn]
  simp only [List.cons.injEq, and_true]
  refine ⟨?_, ?_, ?_, ?_⟩ <;>
    · apply UInt8.toNat_inj.mp
      rw [UInt8.toNat_ofNat']
      omega

/-! ### Fallible steps -/

theorem bind_eq_ok {ε α β : Type} {x : Except ε α} {f : α → Except ε β} {b : β}
    (h : x >>= f = .ok b) : ∃ a, x = .ok a ∧ f a = .ok b := by
  cases x with
  | error e => cases h
  | ok a => exact ⟨a, rfl, h⟩

theorem ok_bind {ε α β : Type} (a : α) (f : α → Except ε β) : (Except.ok a >>= f) = f a := rfl

/-! ### Panics -/

inductive Panic where
  | index (i len : Nat)
  | range (start stop len : Nat)
  | copyLength (dst src : Nat)
  | overflow (sum width : Nat)
  | charBoundary (i len : Nat)
  deriving DecidableEq, Repr

abbrev Checked (α : Type) := Except Panic α

/-- The program runs through. -/
def Safe {α : Type} (x : Checked α) : Prop := ∃ a, x = .ok a

/-- `l[i]`. -/
def index (l : Bytes) (i : Nat) : Checked UInt8 :=
  match l[i]? with
  | some b => .ok b
  | none => .error (.index i l.length)

/-- `u16::from_be_bytes([l[i], l[i + 1]])`. -/
def readU16 (l : Bytes) (i : Nat) : Checked UInt16 := do
  let hi ← index l i
  let lo ← index l (i + 1)
  return u16FromBe hi lo

/-- `u32::from_be_bytes([l[i], l[i + 1], l[i + 2], l[i + 3]])`. -/
def readU32 (l : Bytes) (i : Nat) : Checked UInt32 := do
  let b₀ ← index l i
  let b₁ ← index l (i + 1)
  let b₂ ← index l (i + 2)
  let b₃ ← index l (i + 3)
  return u32FromBe b₀ b₁ b₂ b₃

/-- `&l[start..stop]`. -/
def range (l : Bytes) (start stop : Nat) : Checked Bytes :=
  if start ≤ stop ∧ stop ≤ l.length then .ok (slice l start stop)
  else .error (.range start stop l.length)

/-- `dst[..n].copy_from_slice(src)`. -/
def copyFromSlice (dst : Bytes) (n : Nat) (src : Bytes) : Checked Bytes :=
  if n ≤ dst.length then
    if n = src.length then .ok (src ++ dst.drop n) else .error (.copyLength n src.length)
  else .error (.range 0 n dst.length)

/-- `a + b` in an unsigned type of `width` bits, with overflow checks. -/
def checkedAdd (width a b : Nat) : Checked Nat :=
  if a + b < 2 ^ width then .ok (a + b) else .error (.overflow (a + b) width)

/-- `let x = program?;` in a program with errors of its own. -/
def tryThen {ε α β : Type} (x : Checked (Except ε α)) (f : α → Checked (Except ε β)) :
    Checked (Except ε β) := do
  match ← x with
  | .error e => return .error e
  | .ok a => f a

/-- Without a panic only the program's own errors are left. -/
theorem tryThen_eq {ε α β : Type} {x : Checked (Except ε α)} {f : α → Checked (Except ε β)}
    {r : Except ε α} {g : α → Except ε β} (hx : x = .ok r)
    (hf : ∀ a, r = .ok a → f a = .ok (g a)) : tryThen x f = .ok (r >>= g) := by
  subst hx
  cases r with
  | error e => rfl
  | ok a => exact hf a rfl

/-! ### Values of accesses in range -/

def byteAt (l : Bytes) (i : Nat) : UInt8 := l.getD i 0

def u16At (l : Bytes) (i : Nat) : UInt16 := u16FromBe (byteAt l i) (byteAt l (i + 1))

def u32At (l : Bytes) (i : Nat) : UInt32 :=
  u32FromBe (byteAt l i) (byteAt l (i + 1)) (byteAt l (i + 2)) (byteAt l (i + 3))

theorem index_of_lt {l : Bytes} {i : Nat} (h : i < l.length) : index l i = .ok (byteAt l i) := by
  simp [index, byteAt, List.getElem?_eq_getElem h]

theorem readU16_of_lt {l : Bytes} {i : Nat} (h : i + 1 < l.length) :
    readU16 l i = .ok (u16At l i) := by
  rw [readU16, index_of_lt (by omega), index_of_lt h]
  rfl

theorem readU32_of_lt {l : Bytes} {i : Nat} (h : i + 3 < l.length) :
    readU32 l i = .ok (u32At l i) := by
  rw [readU32, index_of_lt (by omega), index_of_lt (by omega), index_of_lt (by omega),
    index_of_lt h]
  rfl

theorem index_eq_ok {l : Bytes} {i : Nat} {b : UInt8} (h : index l i = .ok b) :
    i < l.length ∧ b = byteAt l i := by
  by_cases hlt : i < l.length
  · rw [index_of_lt hlt] at h
    exact ⟨hlt, (Except.ok.inj h).symm⟩
  · simp [index, List.getElem?_eq_none (Nat.le_of_not_lt hlt)] at h

theorem readU16_eq_ok {l : Bytes} {i : Nat} {n : UInt16} (h : readU16 l i = .ok n) :
    i + 1 < l.length ∧ n = u16At l i := by
  obtain ⟨hi, hhi, h⟩ := bind_eq_ok h
  obtain ⟨lo, hlo, h⟩ := bind_eq_ok h
  have hlt := (index_eq_ok hlo).1
  rw [(index_eq_ok hhi).2, (index_eq_ok hlo).2] at h
  exact ⟨hlt, (Except.ok.inj h).symm⟩

theorem range_eq_ok {l : Bytes} {start stop : Nat} {b : Bytes} (h : range l start stop = .ok b) :
    start ≤ stop ∧ stop ≤ l.length ∧ b = slice l start stop := by
  unfold range at h
  split at h
  · next hle => exact ⟨hle.1, hle.2, (Except.ok.inj h).symm⟩
  · cases h

theorem slice_byte {l : Bytes} {i : Nat} (h : i < l.length) : slice l i (i + 1) = [byteAt l i] := by
  unfold slice byteAt
  rw [Nat.add_sub_cancel_left, List.getD_eq_getElem l 0 h, List.drop_eq_getElem_cons h,
    List.take_succ_cons, List.take_zero]

theorem slice_u16 {l : Bytes} {i : Nat} (h : i + 1 < l.length) :
    slice l i (i + 2) = u16ToBe (u16At l i) := by
  rw [← slice_append_slice l (Nat.le_succ i) (Nat.le_succ (i + 1)), slice_byte (by omega),
    slice_byte h, u16At, u16ToBe_u16FromBe]
  rfl

theorem slice_four {l : Bytes} {i : Nat} (h : i + 4 ≤ l.length) :
    slice l i (i + 4) = [byteAt l i, byteAt l (i + 1), byteAt l (i + 2), byteAt l (i + 3)] := by
  rw [← slice_append_slice l (show i ≤ i + 1 by omega) (show i + 1 ≤ i + 4 by omega),
    ← slice_append_slice l (show i + 1 ≤ i + 2 by omega) (show i + 2 ≤ i + 4 by omega),
    ← slice_append_slice l (show i + 2 ≤ i + 3 by omega) (show i + 3 ≤ i + 4 by omega),
    slice_byte (by omega), slice_byte (by omega), slice_byte (by omega), slice_byte (by omega)]
  rfl

theorem toNat_u16At (l : Bytes) (i : Nat) :
    (u16At l i).toNat = (byteAt l i).toNat * 256 + (byteAt l (i + 1)).toNat :=
  toNat_u16FromBe _ _

theorem toNat_u32At (l : Bytes) (i : Nat) :
    (u32At l i).toNat = (u16At l i).toNat * 65536 + (u16At l (i + 2)).toNat := by
  have h₀ := (byteAt l i).toNat_lt
  have h₁ := (byteAt l (i + 1)).toNat_lt
  have h₂ := (byteAt l (i + 2)).toNat_lt
  have h₃ := (byteAt l (i + 3)).toNat_lt
  rw [u32At, u32FromBe, UInt32.toNat_ofNat', toNat_u16At, toNat_u16At,
    show i + 2 + 1 = i + 3 from rfl]
  omega

theorem byteAt_append_left {l : Bytes} {i : Nat} (h : i < l.length) (m : Bytes) :
    byteAt (l ++ m) i = byteAt l i :=
  List.getD_append l m 0 i h

theorem byteAt_append_right (l m : Bytes) (i : Nat) :
    byteAt (l ++ m) (l.length + i) = byteAt m i := by
  unfold byteAt
  rw [List.getD_append_right l m 0 _ (Nat.le_add_right _ _), Nat.add_sub_cancel_left]

theorem u16At_append_left {l : Bytes} {i : Nat} (h : i + 1 < l.length) (m : Bytes) :
    u16At (l ++ m) i = u16At l i := by
  unfold u16At
  rw [byteAt_append_left (by omega), byteAt_append_left h]

theorem u16At_append_right (l m : Bytes) (i : Nat) : u16At (l ++ m) (l.length + i) = u16At m i := by
  unfold u16At
  rw [Nat.add_assoc, byteAt_append_right, byteAt_append_right]

theorem u32At_append_right (l m : Bytes) (i : Nat) : u32At (l ++ m) (l.length + i) = u32At m i := by
  unfold u32At
  rw [Nat.add_assoc, Nat.add_assoc, Nat.add_assoc]
  simp only [byteAt_append_right]

theorem u16At_u16ToBe_append (n : UInt16) (rest : Bytes) : u16At (u16ToBe n ++ rest) 0 = n :=
  u16FromBe_u16ToBe n

theorem u32At_u32ToBe_append (n : UInt32) (rest : Bytes) : u32At (u32ToBe n ++ rest) 0 = n := by
  have hlt := n.toNat_lt
  apply UInt32.toNat_inj.mp
  show (u32FromBe (UInt8.ofNat (n.toNat / 16777216)) (UInt8.ofNat (n.toNat / 65536 % 256))
    (UInt8.ofNat (n.toNat / 256 % 256)) (UInt8.ofNat (n.toNat % 256))).toNat = n.toNat
  rw [u32FromBe, UInt32.toNat_ofNat']
  simp only [UInt8.toNat_ofNat']
  omega

/-- A number behind others of its width. -/
theorem u16At_flatMap_u16ToBe (before : List UInt16) (n : UInt16) (rest : Bytes) :
    u16At (before.flatMap u16ToBe ++ (u16ToBe n ++ rest)) (2 * before.length) = n := by
  rw [← length_flatMap_u16ToBe, ← Nat.add_zero (List.flatMap _ _).length, u16At_append_right,
    u16At_u16ToBe_append]

theorem u32At_flatMap_u32ToBe (before : List UInt32) (n : UInt32) (rest : Bytes) :
    u32At (before.flatMap u32ToBe ++ (u32ToBe n ++ rest)) (4 * before.length) = n := by
  rw [← length_flatMap_u32ToBe, ← Nat.add_zero (List.flatMap _ _).length, u32At_append_right,
    u32At_u32ToBe_append]

theorem byteAt_mem {l : Bytes} {i : Nat} (h : i < l.length) : byteAt l i ∈ l := by
  unfold byteAt
  rw [List.getD_eq_getElem l 0 h]
  exact List.getElem_mem h

/-- A byte of the middle part. -/
theorem byteAt_append_mem {l m r : Bytes} {i : Nat} (hle : l.length ≤ i)
    (hlt : i < l.length + m.length) : byteAt (l ++ (m ++ r)) i ∈ m := by
  obtain ⟨j, rfl⟩ := Nat.exists_eq_add_of_le hle
  rw [byteAt_append_right, byteAt_append_left (by omega)]
  exact byteAt_mem (by omega)

/-! ### Accesses behind a known front

    A program that reads from left to right has passed a front; its next
    access is to the first bytes behind it. -/

theorem index_append (front : Bytes) (b : UInt8) (rest : Bytes) :
    index (front ++ b :: rest) front.length = .ok b := by
  simp [index]

theorem readU16_append (front : Bytes) (n : UInt16) (rest : Bytes) :
    readU16 (front ++ (u16ToBe n ++ rest)) front.length = .ok n := by
  rw [readU16_of_lt (by simp; omega), ← Nat.add_zero front.length, u16At_append_right,
    u16At_u16ToBe_append]

theorem range_append (front part rest : Bytes) :
    range (front ++ (part ++ rest)) front.length (front.length + part.length) = .ok part := by
  have hslice :
      slice (front ++ (part ++ rest)) front.length (front.length + part.length) = part := by
    simp [slice]
  rw [range, if_pos ⟨Nat.le_add_right _ _, by simp⟩, hslice]

theorem exists_append_of_le {l : Bytes} {n : Nat} (h : n ≤ l.length) :
    ∃ front rest, l = front ++ rest ∧ front.length = n :=
  ⟨l.take n, l.drop n, (List.take_append_drop n l).symm, List.length_take_of_le h⟩

theorem exists_u16_append {l : Bytes} (h : 2 ≤ l.length) : ∃ n rest, l = u16ToBe n ++ rest := by
  match l, h with
  | hi :: lo :: rest, _ => exact ⟨u16FromBe hi lo, rest, by rw [u16ToBe_u16FromBe]; rfl⟩

/-! ### Pushing `Safe` through a program -/

section safe
variable {α β : Type}

@[simp] theorem safe_pure (a : α) : Safe (pure a : Checked α) := ⟨a, rfl⟩

@[simp] theorem not_safe_error (e : Panic) : ¬ Safe (.error e : Checked α) := by
  intro ⟨a, h⟩
  cases h

theorem safe_bind (x : Checked α) (f : α → Checked β) :
    Safe (x >>= f) ↔ ∃ a, x = .ok a ∧ Safe (f a) := by
  cases x with
  | ok a =>
    constructor
    · exact fun h => ⟨a, rfl, h⟩
    · intro ⟨a', ha', h⟩
      cases ha'
      exact h
  | error e =>
    constructor
    · exact fun h => absurd h (not_safe_error e)
    · intro ⟨a', ha', _⟩
      cases ha'

/-- What follows never panics, so only `x` can. -/
theorem safe_bind_iff_of_safe {x : Checked α} {f : α → Checked β} (hf : ∀ a, Safe (f a)) :
    Safe (x >>= f) ↔ Safe x := by
  rw [safe_bind]
  constructor
  · rintro ⟨a, hx, -⟩
    exact ⟨a, hx⟩
  · rintro ⟨a, hx⟩
    exact ⟨a, hx, hf a⟩

@[simp] theorem safe_index_bind (l : Bytes) (i : Nat) (f : UInt8 → Checked β) :
    Safe (index l i >>= f) ↔ i < l.length ∧ Safe (f (byteAt l i)) := by
  by_cases h : i < l.length
  · rw [index_of_lt h]
    exact ⟨fun hs => ⟨h, hs⟩, fun hs => hs.2⟩
  · have herr : index l i = .error (.index i l.length) := by
      simp [index, List.getElem?_eq_none (Nat.le_of_not_lt h)]
    rw [herr]
    exact ⟨fun hs => absurd hs (not_safe_error _), fun hs => absurd hs.1 h⟩

@[simp] theorem safe_readU16_bind (l : Bytes) (i : Nat) (f : UInt16 → Checked β) :
    Safe (readU16 l i >>= f) ↔ i + 1 < l.length ∧ Safe (f (u16At l i)) := by
  have hassoc : (readU16 l i >>= f) =
      (index l i >>= fun hi => index l (i + 1) >>= fun lo => f (u16FromBe hi lo)) := by
    simp [readU16, bind_assoc]
  rw [hassoc, safe_index_bind, safe_index_bind]
  constructor
  · exact fun hs => hs.2
  · exact fun hs => ⟨by omega, hs⟩

@[simp] theorem safe_range_bind (l : Bytes) (start stop : Nat) (f : Bytes → Checked β) :
    Safe (range l start stop >>= f) ↔
      (start ≤ stop ∧ stop ≤ l.length) ∧ Safe (f (slice l start stop)) := by
  unfold range
  split
  · next h => exact ⟨fun hs => ⟨h, hs⟩, fun hs => hs.2⟩
  · next h => exact ⟨fun hs => absurd hs (not_safe_error _), fun hs => absurd hs.1 h⟩

@[simp] theorem safe_copyFromSlice_bind (dst : Bytes) (n : Nat) (src : Bytes)
    (f : Bytes → Checked β) :
    Safe (copyFromSlice dst n src >>= f) ↔
      (n ≤ dst.length ∧ n = src.length) ∧ Safe (f (src ++ dst.drop n)) := by
  unfold copyFromSlice
  split
  · next h =>
    split
    · next h' => exact ⟨fun hs => ⟨⟨h, h'⟩, hs⟩, fun hs => hs.2⟩
    · next h' => exact ⟨fun hs => absurd hs (not_safe_error _), fun hs => absurd hs.1.2 h'⟩
  · next h => exact ⟨fun hs => absurd hs (not_safe_error _), fun hs => absurd hs.1.1 h⟩

@[simp] theorem safe_checkedAdd_bind (width a b : Nat) (f : Nat → Checked β) :
    Safe (checkedAdd width a b >>= f) ↔ a + b < 2 ^ width ∧ Safe (f (a + b)) := by
  unfold checkedAdd
  split
  · next h => exact ⟨fun hs => ⟨h, hs⟩, fun hs => hs.2⟩
  · next h => exact ⟨fun hs => absurd hs (not_safe_error _), fun hs => absurd hs.1 h⟩

theorem safe_ite (c : Prop) [Decidable c] (x y : Checked α) :
    Safe (if c then x else y) ↔ (c → Safe x) ∧ (¬ c → Safe y) := by
  by_cases h : c <;> simp [h]

end safe

end Synvoid.Framework
