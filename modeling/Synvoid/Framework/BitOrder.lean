import Mathlib.Data.List.DropRight
import Mathlib.Data.Nat.Bitwise
import Synvoid.Framework.BigEndian
import Synvoid.Framework.Checked

/-! # Bits in network order

    The bits of a byte string, the high bit of the first byte first, and where
    they are in the numbers that big-endian bytes are read as. The bits as a
    list (`byteBits`) give the bytes back (`wholeBytes_byteBits_append`).
-/

namespace Synvoid.Framework

/-- Bit `i` of a byte string. -/
def bitAt (b : Bytes) (i : Nat) : Bool := (b.getD (i / 8) 0).toNat.testBit (7 - i % 8)

theorem bitAt_append_left {b : Bytes} {i : Nat} (h : i < 8 * b.length) (more : Bytes) :
    bitAt (b ++ more) i = bitAt b i := by
  unfold bitAt
  rw [List.getD_append _ _ _ _ (by omega)]

theorem bitAt_append_right {b : Bytes} {i : Nat} (h : 8 * b.length ≤ i) (more : Bytes) :
    bitAt (b ++ more) i = bitAt more (i - 8 * b.length) := by
  unfold bitAt
  rw [List.getD_append_right _ _ _ _ (by omega)]
  congr 2
  · congr 2
    omega
  · omega

/-- A byte cut out of a number has its bits. -/
theorem testBit_byte (n k j : Nat) (h : j < 8) :
    (UInt8.ofNat (n / 2 ^ k % 256)).toNat.testBit j = n.testBit (k + j) := by
  rw [UInt8.toNat_ofNat', show (2 : Nat) ^ 8 = 256 from rfl, Nat.mod_mod,
    show (256 : Nat) = 2 ^ 8 from rfl, Nat.testBit_mod_two_pow, Nat.testBit_div_two_pow]
  simp [h, Nat.add_comm]

theorem bitAt_u16ToBe (n : UInt16) {i : Nat} (h : i < 16) :
    bitAt (u16ToBe n) i = n.toNat.testBit (15 - i) := by
  have hn := n.toNat_lt
  unfold bitAt u16ToBe
  rcases Nat.lt_or_ge i 8 with hlow | hhigh
  · have hbyte := testBit_byte n.toNat 8 (7 - i % 8) (by omega)
    rw [show (2 : Nat) ^ 8 = 256 from rfl, Nat.mod_eq_of_lt (by omega)] at hbyte
    rw [show i / 8 = 0 by omega]
    simp only [List.getD_cons_zero]
    rw [hbyte]
    congr 1
    omega
  · have hbyte := testBit_byte n.toNat 0 (7 - i % 8) (by omega)
    rw [Nat.pow_zero, Nat.div_one] at hbyte
    rw [show i / 8 = 1 by omega]
    simp only [List.getD_cons_succ, List.getD_cons_zero]
    rw [hbyte]
    congr 1
    omega

theorem bitAt_u32ToBe (n : UInt32) {i : Nat} (h : i < 32) :
    bitAt (u32ToBe n) i = n.toNat.testBit (31 - i) := by
  have hn := n.toNat_lt
  unfold bitAt u32ToBe
  have h₀ := testBit_byte n.toNat 24 (7 - i % 8) (by omega)
  have h₁ := testBit_byte n.toNat 16 (7 - i % 8) (by omega)
  have h₂ := testBit_byte n.toNat 8 (7 - i % 8) (by omega)
  have h₃ := testBit_byte n.toNat 0 (7 - i % 8) (by omega)
  rw [show (2 : Nat) ^ 24 = 16777216 from rfl, Nat.mod_eq_of_lt (by omega)] at h₀
  rw [show (2 : Nat) ^ 16 = 65536 from rfl] at h₁
  rw [show (2 : Nat) ^ 8 = 256 from rfl] at h₂
  rw [Nat.pow_zero, Nat.div_one] at h₃
  obtain hq | hq | hq | hq : i / 8 = 0 ∨ i / 8 = 1 ∨ i / 8 = 2 ∨ i / 8 = 3 := by omega
  all_goals
    rw [hq]
    simp only [List.getD_cons_succ, List.getD_cons_zero, h₀, h₁, h₂, h₃]
    congr 1
    omega

/-- Numbers behind one another. -/
theorem bitAt_flatMap_u16ToBe (numbers : List UInt16) {i : Nat} (h : i < 16 * numbers.length) :
    bitAt (numbers.flatMap u16ToBe) i = (numbers.getD (i / 16) 0).toNat.testBit (15 - i % 16) := by
  induction numbers generalizing i with
  | nil => simp at h
  | cons n numbers ih =>
    rw [List.flatMap_cons]
    rcases Nat.lt_or_ge i 16 with hlow | hhigh
    · rw [bitAt_append_left (by simpa using hlow), bitAt_u16ToBe n hlow,
        show i / 16 = 0 by omega, show i % 16 = i by omega]
      rfl
    · rw [List.length_cons] at h
      rw [bitAt_append_right (by simpa using hhigh), length_u16ToBe, ih (by omega),
        show i / 16 = (i - 8 * 2) / 16 + 1 by omega, show i % 16 = (i - 8 * 2) % 16 by omega]
      rfl

/-- The bytes of a number come back. -/
theorem u32ToBe_u32FromBe (b₀ b₁ b₂ b₃ : UInt8) :
    u32ToBe (u32FromBe b₀ b₁ b₂ b₃) = [b₀, b₁, b₂, b₃] := by
  have h₀ := b₀.toNat_lt
  have h₁ := b₁.toNat_lt
  have h₂ := b₂.toNat_lt
  have h₃ := b₃.toNat_lt
  have hn : (u32FromBe b₀ b₁ b₂ b₃).toNat =
      b₀.toNat * 16777216 + b₁.toNat * 65536 + b₂.toNat * 256 + b₃.toNat := by
    unfold u32FromBe
    rw [UInt32.toNat_ofNat', Nat.mod_eq_of_lt (by omega)]
  unfold u32ToBe
  rw [hn]
  simp only [List.cons.injEq, and_true]
  refine ⟨?_, ?_, ?_, ?_⟩ <;>
    · apply UInt8.toNat_inj.mp
      rw [UInt8.toNat_ofNat']
      omega

/-! ### Setting bits -/

/-- Sets bit `i`; the string gets as long as it takes. -/
def setBitAt (b : Bytes) (i : Nat) : Bytes :=
  (b ++ List.replicate (i / 8 + 1 - b.length) 0).modify (i / 8)
    (· ||| UInt8.ofNat (2 ^ (7 - i % 8)))

theorem getD_append_replicate (b : Bytes) (n j : Nat) :
    (b ++ List.replicate n 0).getD j 0 = b.getD j 0 := by
  rcases Nat.lt_or_ge j b.length with h | h
  · exact List.getD_append _ _ _ _ h
  · rw [List.getD_append_right _ _ _ _ h, List.getD_eq_default b 0 h]
    rcases Nat.lt_or_ge (j - b.length) n with hn | hn
    · rw [List.getD_eq_getElem _ _ (by simpa using hn), List.getElem_replicate]
    · exact List.getD_eq_default _ _ (by simpa using hn)

theorem bitAt_setBitAt (b : Bytes) (i k : Nat) :
    bitAt (setBitAt b i) k = (bitAt b k || k == i) := by
  have hlength : i / 8 < (b ++ List.replicate (i / 8 + 1 - b.length) 0).length := by
    simp only [List.length_append, List.length_replicate]
    omega
  have hbyte : ∀ j, (setBitAt b i).getD j 0 =
      if i / 8 = j then b.getD j 0 ||| UInt8.ofNat (2 ^ (7 - i % 8)) else b.getD j 0 := by
    intro j
    unfold setBitAt
    rw [← getD_append_replicate b (i / 8 + 1 - b.length) j, List.getD_eq_getElem?_getD,
      List.getElem?_modify, List.getD_eq_getElem?_getD]
    split
    · next hj =>
      subst hj
      rw [List.getElem?_eq_getElem hlength]
      rfl
    · cases (b ++ List.replicate (i / 8 + 1 - b.length) 0)[j]? <;> rfl
  unfold bitAt
  rw [hbyte]
  split
  · next hj =>
    have hmask : (UInt8.ofNat (2 ^ (7 - i % 8))).toNat = 2 ^ (7 - i % 8) := by
      rw [UInt8.toNat_ofNat', Nat.mod_eq_of_lt]
      exact Nat.pow_lt_pow_right (by decide) (by omega)
    rw [UInt8.toNat_or, Nat.testBit_or, hmask, Nat.testBit_two_pow]
    congr 1
    rw [Bool.eq_iff_iff]
    simp only [decide_eq_true_eq, beq_iff_eq]
    omega
  · next hj =>
    have hne : k ≠ i := by
      rintro rfl
      exact hj rfl
    simp [hne]

theorem length_setBitAt (b : Bytes) (i : Nat) :
    (setBitAt b i).length = max b.length (i / 8 + 1) := by
  simp [setBitAt]
  omega

/-- The zero bytes at the end have no bits. -/
theorem bitAt_rdropWhile (b : Bytes) (i : Nat) : bitAt (b.rdropWhile (· == 0)) i = bitAt b i := by
  have hall : b.rtakeWhile (· == 0) = List.replicate (b.rtakeWhile (· == 0)).length 0 := by
    rw [List.eq_replicate_iff]
    exact ⟨rfl, fun x hx => by simpa using List.mem_rtakeWhile_imp hx⟩
  have hsplit : b = b.rdropWhile (· == 0) ++ b.rtakeWhile (· == 0) :=
    List.rdropWhile_append_rtakeWhile.symm
  conv_rhs => rw [hsplit, hall]
  unfold bitAt
  rw [getD_append_replicate]

/-- The last byte of a string with its last bit in it is not zero. -/
theorem getLast?_of_bitAt {b : Bytes} {i : Nat} (h : bitAt b i = true)
    (hlast : i / 8 + 1 = b.length) :
    b.getLast? ≠ some 0 := by
  intro hzero
  have hbyte : b.getD (i / 8) 0 = 0 := by
    rw [List.getLast?_eq_getElem?, show b.length - 1 = i / 8 by omega] at hzero
    rw [List.getD_eq_getElem?_getD, hzero]
    rfl
  rw [bitAt, hbyte] at h
  simp at h

/-- A last byte that is not zero has a bit. -/
theorem exists_bitAt_of_getLast? {b : Bytes} (hne : b ≠ []) (hlast : b.getLast? ≠ some 0) :
    ∃ i, bitAt b i = true ∧ i / 8 + 1 = b.length := by
  have hpos := List.length_pos_of_ne_nil hne
  have hbyte : (b.getD (b.length - 1) 0).toNat ≠ 0 := by
    intro hzero
    apply hlast
    rw [List.getLast?_eq_getElem?, List.getElem?_eq_getElem (by omega)]
    rw [List.getD_eq_getElem _ _ (by omega)] at hzero
    exact congrArg some (UInt8.toNat_inj.mp hzero)
  obtain ⟨j, hj⟩ := Nat.exists_testBit_of_ne_zero hbyte
  have hj8 : j < 8 := by
    by_contra hge
    have hlt : (b.getD (b.length - 1) 0).toNat < 2 ^ j :=
      Nat.lt_of_lt_of_le (UInt8.toNat_lt _) (Nat.pow_le_pow_right (by decide) (by omega))
    rw [Nat.testBit_lt_two_pow hlt] at hj
    cases hj
  refine ⟨8 * (b.length - 1) + (7 - j), ?_, by omega⟩
  unfold bitAt
  rw [show (8 * (b.length - 1) + (7 - j)) / 8 = b.length - 1 by omega,
    show 7 - (8 * (b.length - 1) + (7 - j)) % 8 = j by omega]
  exact hj

theorem lt_of_bitAt {b : Bytes} {i : Nat} (h : bitAt b i = true) : i / 8 < b.length := by
  by_contra hge
  rw [bitAt, List.getD_eq_default b 0 (by omega)] at h
  simp at h

/-! ### Numbers -/

/-- The bits of a big-endian number, from the high end. -/
theorem testBit_beValue {bytes : Bytes} {i : Nat} (hi : i < 8 * bytes.length) :
    (beValue bytes).testBit (8 * bytes.length - 1 - i) = bitAt bytes i := by
  induction bytes generalizing i with
  | nil => simp at hi
  | cons byte bytes ih =>
    have hlow : beValue bytes < 2 ^ (8 * bytes.length) := by
      rw [two_pow_eq_pow_256]
      exact beValue_lt bytes
    rw [List.length_cons] at hi ⊢
    rw [beValue, ← two_pow_eq_pow_256, Nat.testBit_two_pow_mul_add _ hlow]
    rcases Nat.lt_or_ge i 8 with hfirst | hrest
    · rw [if_neg (by omega)]
      unfold bitAt
      rw [Nat.div_eq_of_lt hfirst, List.getD_cons_zero]
      congr 1
      omega
    · have hbit : bitAt (byte :: bytes) i = bitAt bytes (i - 8) :=
        bitAt_append_right (b := [byte]) (by simpa using hrest) bytes
      rw [if_pos (by omega), hbit, ← ih (by omega)]
      congr 1
      omega

/-! ### Bit lists -/

/-- The low bits of a number, the highest of them first. -/
def lowBits : Nat → Nat → List Bool
  | 0, _ => []
  | width + 1, n => n.testBit width :: lowBits width n

theorem lowBits_congr {width m n : Nat} (h : ∀ i < width, m.testBit i = n.testBit i) :
    lowBits width m = lowBits width n := by
  induction width with
  | zero => rfl
  | succ width ih =>
    rw [lowBits, lowBits, h width (Nat.lt_succ_self width), ih fun i hi => h i (by omega)]

theorem lowBits_add (high low n : Nat) :
    lowBits (high + low) n = lowBits high (n >>> low) ++ lowBits low n := by
  induction high with
  | zero => rw [Nat.zero_add, lowBits, List.nil_append]
  | succ high ih =>
    rw [Nat.succ_add_eq_add_succ, Nat.add_succ, lowBits, ih, lowBits, Nat.testBit_shiftRight,
      Nat.add_comm low high, List.cons_append]

/-- A number shifted up, and one that fits into the place below it. -/
theorem lowBits_shiftLeft_or (width shift n : Nat) {below : Nat} (h : below < 2 ^ shift) :
    lowBits (width + shift) (n <<< shift ||| below) = lowBits width n ++ lowBits shift below := by
  have hhigh : (n <<< shift ||| below) >>> shift = n := by
    rw [Nat.shiftRight_or_distrib, Nat.shiftLeft_shiftRight, Nat.shiftRight_eq_div_pow,
      Nat.div_eq_of_lt h, Nat.or_zero]
  have hlow : lowBits shift (n <<< shift ||| below) = lowBits shift below := by
    apply lowBits_congr
    intro i hi
    rw [Nat.testBit_or, Nat.testBit_shiftLeft, decide_eq_false (by omega), Bool.false_and,
      Bool.false_or]
  rw [lowBits_add, hhigh, hlow]

theorem lowBits_zero (width : Nat) : lowBits width 0 = List.replicate width false := by
  induction width with
  | zero => rfl
  | succ width ih => rw [lowBits, ih, Nat.zero_testBit, List.replicate_succ]

/-- The number that bits are, the highest first. -/
def ofBits (bits : List Bool) : Nat := bits.foldl (fun n bit => 2 * n + bit.toNat) 0

theorem ofBits_lowBits (width n : Nat) : ofBits (lowBits width n) = n % 2 ^ width := by
  have hfold : ∀ high, (lowBits width n).foldl (fun n bit => 2 * n + bit.toNat) high =
      high * 2 ^ width + n % 2 ^ width := by
    induction width with
    | zero =>
      intro high
      rw [lowBits, List.foldl_nil, Nat.pow_zero, Nat.mod_one, Nat.mul_one, Nat.add_zero]
    | succ width ih =>
      intro high
      rw [lowBits, List.foldl_cons, ih, Nat.mod_pow_succ, Nat.toNat_testBit, Nat.pow_succ]
      ring
  rw [ofBits, hfold, Nat.zero_mul, Nat.zero_add]

/-- The bits of bytes, each from its high end. -/
def byteBits (bytes : Bytes) : List Bool := bytes.flatMap fun byte => lowBits 8 byte.toNat

/-- The bytes that bits are; fewer than eight at the end are no byte. -/
def wholeBytes : List Bool → Bytes
  | a :: b :: c :: d :: e :: f :: g :: h :: rest =>
    UInt8.ofNat (ofBits [a, b, c, d, e, f, g, h]) :: wholeBytes rest
  | _ => []

theorem wholeBytes_cons (byte : UInt8) (rest : List Bool) :
    wholeBytes (lowBits 8 byte.toNat ++ rest) = byte :: wholeBytes rest := by
  have hbyte : ofBits (lowBits 8 byte.toNat) = byte.toNat := by
    rw [ofBits_lowBits]
    exact Nat.mod_eq_of_lt byte.toNat_lt
  have hofNat : UInt8.ofNat (ofBits (lowBits 8 byte.toNat)) = byte := by
    rw [hbyte, UInt8.ofNat_toNat]
  exact congrArg (· :: wholeBytes rest) hofNat

/-- What is left of fewer than eight bits behind the bytes is nothing. -/
theorem wholeBytes_byteBits_append (bytes : Bytes) {pad : List Bool} (hpad : pad.length < 8) :
    wholeBytes (byteBits bytes ++ pad) = bytes := by
  induction bytes with
  | nil =>
    rw [byteBits, List.flatMap_nil, List.nil_append, wholeBytes]
    rintro a b c d e f g h rest rfl
    simp only [List.length_cons] at hpad
    omega
  | cons byte bytes ih =>
    rw [byteBits, List.flatMap_cons, List.append_assoc, wholeBytes_cons]
    exact congrArg (byte :: ·) ih

end Synvoid.Framework
