import Synvoid.Framework.BitOrder
import Synvoid.Dns.DnssecRecords

/-! # The base32 text of hashes

    The names of NSEC3 records hold hashes as digits of five bits each. The
    encoder shifts bytes into a buffer of 64 bits and never clears it, so above
    the bits that are still to be written there are old ones. Only the low bits
    count (`Encoded`): at most twelve of them are waiting, and the shifts leave
    them as they are. A text is read back digit by digit (`base32Decode`).
-/

namespace Synvoid.Dns

open Synvoid.Framework

/-! ## Section 1: Reading the text -/

/-- The bits of a text, five for each digit. -/
def base32Bits : Str → Option (List Bool)
  | [] => some []
  | digit :: text => do
    let value ← base32Alphabet.idxOf? digit
    let rest ← base32Bits text
    return lowBits 5 value ++ rest

/-- The bits in groups of eight. Those behind the last group are the padding. -/
def base32Decode (text : Str) : Option Bytes := (base32Bits text).map wholeBytes

theorem base32Bits_append {text more : Str} {bits moreBits : List Bool}
    (htext : base32Bits text = some bits) (hmore : base32Bits more = some moreBits) :
    base32Bits (text ++ more) = some (bits ++ moreBits) := by
  induction text generalizing bits with
  | nil =>
    obtain rfl : [] = bits := by simpa [base32Bits] using htext
    exact hmore
  | cons digit text ih =>
    rw [base32Bits, Option.bind_eq_bind, Option.bind_eq_some_iff] at htext
    obtain ⟨value, hvalue, htext⟩ := htext
    rw [Option.bind_eq_bind, Option.bind_eq_some_iff] at htext
    obtain ⟨rest, hrest, hbits⟩ := htext
    obtain rfl : lowBits 5 value ++ rest = bits := by simpa using hbits
    rw [List.cons_append, base32Bits, hvalue, ih hrest, List.append_assoc]
    rfl

theorem idxOf?_base32Alphabet :
    ∀ n < 32, base32Alphabet.idxOf? (base32Alphabet.getD n '0') = some n := by
  decide +kernel

/-- A digit stands for the low five bits. -/
theorem base32Bits_digit (n : UInt64) :
    base32Bits [base32Digit n] = some (lowBits 5 n.toNat) := by
  have hmask : (n &&& 0x1F).toNat = n.toNat % 32 := by
    rw [UInt64.toNat_and]
    exact Nat.and_two_pow_sub_one_eq_mod n.toNat 5
  have hbits : lowBits 5 (n.toNat % 32) = lowBits 5 n.toNat := by
    apply lowBits_congr
    intro i hi
    rw [show 32 = 2 ^ 5 from rfl, Nat.testBit_mod_two_pow, decide_eq_true hi, Bool.true_and]
  rw [base32Bits, base32Digit, hmask, idxOf?_base32Alphabet _ (Nat.mod_lt _ (by decide)), ← hbits]
  simp [base32Bits]

/-! ## Section 2: The encoder -/

/-- The shifts of the encoder are by less than the width of the buffer. -/
theorem toNat_ofNat_mod_width {shift : Nat} (h : shift < 64) :
    (UInt64.ofNat shift).toNat % 64 = shift := by
  rw [UInt64.toNat_ofNat_of_lt' (h.trans (by decide)), Nat.mod_eq_of_lt h]

/-- The inner loop writes all but fewer than five of the waiting bits. -/
theorem base32Drain_spec (buffer : UInt64) (bits : Nat) (hbits : bits < 64) :
    (base32Drain buffer bits).2 < 5 ∧
      ∃ written, base32Bits (base32Drain buffer bits).1 = some written ∧
        written ++ lowBits (base32Drain buffer bits).2 buffer.toNat =
          lowBits bits buffer.toNat := by
  fun_induction base32Drain buffer bits with
  | case1 bits digits bitsLeft hdrain ih =>
    rw [hdrain] at ih
    obtain ⟨hleft, written, hwritten, hall⟩ := ih (by omega)
    refine ⟨hleft, _, base32Bits_append (base32Bits_digit _) hwritten, ?_⟩
    have hshift : (buffer >>> UInt64.ofNat bits).toNat = buffer.toNat >>> bits := by
      rw [UInt64.toNat_shiftRight, toNat_ofNat_mod_width (by omega)]
    rw [hshift, List.append_assoc, hall, ← lowBits_add, Nat.add_comm 5 bits]
  | case2 bits hfew =>
    have hlt : bits < 5 := by
      by_contra hge
      exact hfew (bits - 5) (by omega)
    exact ⟨hlt, [], rfl, List.nil_append _⟩

/-- After the bytes of `input`: the text and the waiting bits are theirs. -/
structure Encoded (input : Bytes) (state : Str × UInt64 × Nat) : Prop where
  few : state.2.2 < 5
  all : ∃ written, base32Bits state.1 = some written ∧
    written ++ lowBits state.2.2 state.2.1.toNat = byteBits input

theorem Encoded.start : Encoded [] ([], 0, 0) := ⟨by decide, [], rfl, rfl⟩

/-- The shift moves the waiting bits up, and what is put below them fits. Bits
    that are lost at the high end are not waiting. -/
theorem lowBits_shift_in (buffer below : UInt64) (bits shift : Nat) (hroom : bits + shift < 64)
    (hbelow : below.toNat < 2 ^ shift) :
    lowBits (bits + shift) (buffer <<< UInt64.ofNat shift ||| below).toNat =
      lowBits bits buffer.toNat ++ lowBits shift below.toNat := by
  rw [← lowBits_shiftLeft_or bits shift buffer.toNat hbelow]
  apply lowBits_congr
  intro i hi
  rw [UInt64.toNat_or, UInt64.toNat_shiftLeft, toNat_ofNat_mod_width (by omega),
    Nat.testBit_or, Nat.testBit_or, Nat.testBit_mod_two_pow, decide_eq_true (by omega : i < 64),
    Bool.true_and]

theorem Encoded.step {input : Bytes} {state : Str × UInt64 × Nat} (h : Encoded input state)
    (byte : UInt8) : Encoded (input ++ [byte]) (base32Step state byte) := by
  obtain ⟨text, buffer, bits⟩ := state
  obtain ⟨hfew, written, hwritten, hall⟩ := h
  have hbuffer : lowBits (bits + 8) (buffer <<< 8 ||| byte.toUInt64).toNat =
      lowBits bits buffer.toNat ++ lowBits 8 byte.toNat :=
    lowBits_shift_in buffer byte.toUInt64 bits 8
      (Nat.add_lt_add_right (hfew.trans (by decide)) 8) byte.toNat_lt
  obtain ⟨hleft, digits, hdigits, hrest⟩ :=
    base32Drain_spec (buffer <<< 8 ||| byte.toUInt64) (bits + 8)
      (Nat.add_lt_add_right (hfew.trans (by decide)) 8)
  refine ⟨hleft, written ++ digits, base32Bits_append hwritten hdigits, ?_⟩
  calc written ++ digits ++ lowBits _ _
      = written ++ lowBits (bits + 8) (buffer <<< 8 ||| byte.toUInt64).toNat := by
        rw [List.append_assoc, ← hrest]
        rfl
    _ = byteBits input ++ lowBits 8 byte.toNat := by
        rw [hbuffer, ← List.append_assoc, hall]
    _ = byteBits (input ++ [byte]) := by
        rw [byteBits, byteBits, List.flatMap_append, List.flatMap_singleton]

theorem Encoded.run (input : Bytes) : Encoded input (input.foldl base32Step ([], 0, 0)) := by
  induction input using List.reverseRecOn with
  | nil => exact .start
  | append_singleton input byte ih =>
    rw [List.foldl_append]
    exact ih.step byte

/-- The digits are the bits of the input, five to a digit, with fewer than five
    zeros behind them. -/
theorem base32Bits_base32Encode (input : Bytes) :
    ∃ pad < 5, base32Bits (base32Encode input) =
      some (byteBits input ++ List.replicate pad false) := by
  have hrun := Encoded.run input
  unfold base32Encode
  generalize input.foldl base32Step ([], 0, 0) = state at hrun ⊢
  obtain ⟨text, buffer, bits⟩ := state
  obtain ⟨hfew, written, hwritten, hall⟩ := hrun
  simp only at hfew hwritten hall ⊢
  split
  · next hpos =>
    have hlast : lowBits 5 (buffer <<< UInt64.ofNat (5 - bits)).toNat =
        lowBits bits buffer.toNat ++ List.replicate (5 - bits) false := by
      have hshift := lowBits_shift_in buffer 0 bits (5 - bits) (by omega)
        (Nat.two_pow_pos _)
      rw [Nat.add_sub_cancel' hfew.le, UInt64.or_zero] at hshift
      rw [hshift, ← lowBits_zero]
      rfl
    refine ⟨5 - bits, by omega, ?_⟩
    rw [base32Bits_append hwritten (base32Bits_digit _), hlast, ← List.append_assoc, hall]
  · next hzero =>
    obtain rfl : bits = 0 := by omega
    rw [lowBits, List.append_nil] at hall
    exact ⟨0, by omega, by rw [hwritten, hall, List.replicate_zero, List.append_nil]⟩

theorem base32Decode_base32Encode (input : Bytes) :
    base32Decode (base32Encode input) = some input := by
  obtain ⟨pad, hpad, hbits⟩ := base32Bits_base32Encode input
  have hlength : (List.replicate pad false).length < 8 := by
    rw [List.length_replicate]
    omega
  rw [base32Decode, hbits, Option.map_some, wholeBytes_byteBits_append input hlength]

/-- The text is the base32 text of the bytes: read digit by digit it gives their
    bits and the padding, and so the bytes. No two byte strings have one text. -/
theorem base32_round_trip (input : Bytes) :
    (∃ pad < 5, base32Bits (base32Encode input) =
      some (byteBits input ++ List.replicate pad false)) ∧
    base32Decode (base32Encode input) = some input ∧
    Function.Injective base32Encode := by
  refine ⟨base32Bits_base32Encode input, base32Decode_base32Encode input, ?_⟩
  intro a b h
  apply Option.some_injective
  rw [← base32Decode_base32Encode a, ← base32Decode_base32Encode b, h]

end Synvoid.Dns
