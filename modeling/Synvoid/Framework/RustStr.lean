import Mathlib.Data.List.DropRight
import Synvoid.Framework.Checked

/-! # Rust strings

    A Rust `&str` is a sequence of Unicode scalar values, here a list of
    characters; its length and its bytes are those of the UTF-8 encoding. The
    definitions follow the documented behaviour of the standard library:
    splitting, trimming, parsing of unsigned integers and of IP addresses.
-/

namespace Synvoid.Framework

abbrev Str := List Char

/-! ### Bytes -/

/-- `as_bytes`. -/
def utf8 (s : Str) : Bytes := s.flatMap String.utf8EncodeChar

/-- `len`. -/
def byteLen (s : Str) : Nat := (utf8 s).length

@[simp] theorem utf8_nil : utf8 [] = [] := rfl

@[simp] theorem utf8_append (s t : Str) : utf8 (s ++ t) = utf8 s ++ utf8 t := by
  simp [utf8]

theorem utf8_cons (c : Char) (s : Str) : utf8 (c :: s) = String.utf8EncodeChar c ++ utf8 s := rfl

@[simp] theorem byteLen_nil : byteLen [] = 0 := rfl

@[simp] theorem byteLen_append (s t : Str) : byteLen (s ++ t) = byteLen s + byteLen t := by
  simp [byteLen]

theorem byteLen_cons (c : Char) (s : Str) : byteLen (c :: s) = c.utf8Size + byteLen s := by
  simp [byteLen, utf8_cons]

@[simp] theorem length_utf8 (s : Str) : (utf8 s).length = byteLen s := rfl

/-- `String::from_utf8`. -/
def fromUtf8 (b : Bytes) : Option Str := b.toByteArray.utf8Decode?.map Array.toList

theorem fromUtf8_utf8 (s : Str) : fromUtf8 (utf8 s) = some s := by
  have hencode : (utf8 s).toByteArray = s.utf8Encode := rfl
  rw [fromUtf8, hencode, List.utf8Decode?_utf8Encode]
  rfl

theorem utf8_of_fromUtf8 {b : Bytes} {s : Str} (h : fromUtf8 b = some s) : utf8 s = b := by
  obtain ⟨chars, hchars, rfl⟩ := Option.map_eq_some_iff.mp h
  have hsome : b.toByteArray.utf8Decode?.isSome = true := by rw [hchars]; rfl
  have hencode := ByteArray.utf8Encode_get_utf8Decode? (b := b.toByteArray) (h := hsome)
  simp only [hchars, Option.get_some] at hencode
  -- both sides are lists of bytes behind byte arrays
  have hlists := congrArg (fun bytes => bytes.data.toList) hencode
  simpa [utf8, List.utf8Encode] using hlists

theorem utf8_injective : Function.Injective utf8 := by
  intro s t h
  have hs := fromUtf8_utf8 s
  rw [h, fromUtf8_utf8] at hs
  exact (Option.some.inj hs).symm

/-- `String::truncate` to `max` bytes: the characters that lie in them. Where
    the bound splits a character, the standard library panics. -/
def truncate : Nat → Str → Str
  | _, [] => []
  | max, c :: s => if c.utf8Size ≤ max then c :: truncate (max - c.utf8Size) s else []

theorem length_le_byteLen (s : Str) : s.length ≤ byteLen s := by
  induction s with
  | nil => simp
  | cons c s ih =>
    have := c.utf8Size_pos
    rw [byteLen_cons, List.length_cons]
    omega

theorem byteLen_eq_zero {s : Str} : byteLen s = 0 ↔ s = [] := by
  constructor
  · intro h
    have := length_le_byteLen s
    exact List.length_eq_zero_iff.mp (by omega)
  · rintro rfl
    rfl

/-- `is_char_boundary`. -/
def isCharBoundary : Str → Nat → Bool
  | _, 0 => true
  | [], _ + 1 => false
  | c :: s, n + 1 => c.utf8Size ≤ n + 1 && isCharBoundary s (n + 1 - c.utf8Size)

/-- A boundary is the length of a beginning of the text. -/
theorem isCharBoundary_iff {s : Str} {n : Nat} :
    isCharBoundary s n = true ↔ ∃ front rest, s = front ++ rest ∧ byteLen front = n := by
  induction s generalizing n with
  | nil =>
    cases n with
    | zero => exact iff_of_true rfl ⟨[], [], rfl, rfl⟩
    | succ n =>
      refine iff_of_false Bool.false_ne_true ?_
      rintro ⟨front, rest, heq, hlen⟩
      obtain ⟨rfl, -⟩ := List.append_eq_nil_iff.mp heq.symm
      exact absurd hlen (Nat.succ_ne_zero n).symm
  | cons c s ih =>
    have hpos := c.utf8Size_pos
    cases n with
    | zero => exact iff_of_true rfl ⟨[], c :: s, rfl, rfl⟩
    | succ n =>
      rw [isCharBoundary, Bool.and_eq_true, decide_eq_true_eq, ih]
      constructor
      · rintro ⟨hsize, front, rest, rfl, hlen⟩
        refine ⟨c :: front, rest, rfl, ?_⟩
        rw [byteLen_cons, hlen]
        omega
      · rintro ⟨front, rest, heq, hlen⟩
        cases front with
        | nil => exact absurd hlen (Nat.succ_ne_zero n).symm
        | cons d front =>
          obtain ⟨rfl, rfl⟩ := List.cons.inj heq
          rw [byteLen_cons] at hlen
          exact ⟨by omega, front, rest, rfl, by omega⟩

theorem byteLen_of_utf8Size {s : Str} (h : ∀ c ∈ s, c.utf8Size = 1) : byteLen s = s.length := by
  induction s with
  | nil => rfl
  | cons c s ih =>
    obtain ⟨hc, hs⟩ := List.forall_mem_cons.mp h
    rw [byteLen_cons, hc, ih hs, List.length_cons, Nat.add_comm]

/-- A text of one-byte characters can be cut anywhere. -/
theorem isCharBoundary_of_utf8Size {s : Str} (h : ∀ c ∈ s, c.utf8Size = 1) {n : Nat}
    (hn : n ≤ s.length) : isCharBoundary s n = true := by
  refine isCharBoundary_iff.mpr ⟨s.take n, s.drop n, (List.take_append_drop n s).symm, ?_⟩
  rw [byteLen_of_utf8Size fun c hc => h c (List.mem_of_mem_take hc), List.length_take_of_le hn]

theorem truncate_begins (max : Nat) (s : Str) : truncate max s <+: s := by
  induction s generalizing max with
  | nil => exact List.nil_prefix
  | cons c s ih =>
    unfold truncate
    split
    · exact List.cons_prefix_cons.mpr ⟨rfl, ih _⟩
    · exact List.nil_prefix

theorem byteLen_truncate_le (max : Nat) (s : Str) : byteLen (truncate max s) ≤ max := by
  induction s generalizing max with
  | nil => exact Nat.zero_le max
  | cons c s ih =>
    unfold truncate
    split
    · next hsize =>
      have := ih (max - c.utf8Size)
      rw [byteLen_cons]
      omega
    · exact Nat.zero_le max

theorem truncate_of_byteLen_le {max : Nat} {s : Str} (h : byteLen s ≤ max) :
    truncate max s = s := by
  induction s generalizing max with
  | nil => rfl
  | cons c s ih =>
    rw [byteLen_cons] at h
    rw [truncate, if_pos (by omega), ih (by omega)]

/-- `&s[..n]`, which panics where it would split a character. -/
def sliceTo (s : Str) (n : Nat) : Checked Str :=
  if isCharBoundary s n then .ok (truncate n s) else .error (.charBoundary n (byteLen s))

/-- `String::truncate`, which leaves a shorter text alone. -/
def truncateTo (n : Nat) (s : Str) : Checked Str :=
  if n ≤ byteLen s then sliceTo s n else .ok s

theorem safe_sliceTo {s : Str} {n : Nat} : Safe (sliceTo s n) ↔ isCharBoundary s n = true := by
  unfold sliceTo
  split
  · next h => exact iff_of_true ⟨_, rfl⟩ h
  · next h => exact iff_of_false (fun ⟨_, h⟩ => by cases h) h

/-- No UTF-8 sequence starts with the byte 255. -/
theorem utf8_head_ne_255 {s : Str} {b : UInt8} {rest : Bytes} (h : utf8 s = b :: rest) :
    b ≠ 255 := by
  cases s with
  | nil => simp at h
  | cons c s =>
    rw [utf8_cons] at h
    have hfirst : (String.utf8EncodeChar c).head? = some b := by
      have hne : String.utf8EncodeChar c ≠ [] := String.utf8EncodeChar_ne_nil
      rw [← List.head?_append_of_ne_nil _ hne, h]
      rfl
    have hval := c.valid
    unfold String.utf8EncodeChar at hfirst
    simp only at hfirst
    rintro rfl
    -- the lead bytes of one to four byte sequences are at most 0x7F, 0xDF, 0xEF and 0xF7
    have hofNat : ∀ n < 255, UInt8.ofNat n ≠ 255 := by
      intro n hn heq
      have := congrArg UInt8.toNat heq
      rw [UInt8.toNat_ofNat', Nat.mod_eq_of_lt (by omega)] at this
      simp at this
      omega
    split_ifs at hfirst <;> simp only [List.head?_cons, Option.some.injEq] at hfirst
    · exact hofNat _ (by omega) hfirst
    · exact hofNat _ (by omega) hfirst
    · exact hofNat _ (by omega) hfirst
    · exact hofNat _ (by omega) hfirst

/-- A zero byte comes only from the character zero. -/
theorem zero_notMem_utf8 {s : Str} (h : ∀ c ∈ s, c.toNat ≠ 0) : 0 ∉ utf8 s := by
  intro hmem
  obtain ⟨c, hc, hzero⟩ := List.mem_flatMap.mp hmem
  have hne := h c hc
  have hval : c.val.toNat < 1114112 := by
    have := c.valid
    simp only [UInt32.isValidChar, Nat.isValidChar] at this
    omega
  have hofNat : ∀ n, 0 < n → n < 256 → (0 : UInt8) ≠ UInt8.ofNat n := by
    intro n hpos hlt heq
    have := congrArg UInt8.toNat heq
    rw [UInt8.toNat_ofNat', Nat.mod_eq_of_lt hlt] at this
    simp at this
    omega
  unfold String.utf8EncodeChar at hzero
  simp only [Char.toNat] at hzero hne
  -- only one byte sequences have a byte below 0x80
  split_ifs at hzero <;> simp only [List.mem_cons, List.not_mem_nil, or_false] at hzero
  · exact hofNat _ (by omega) (by omega) hzero
  · rcases hzero with hzero | hzero <;> exact hofNat _ (by omega) (by omega) hzero
  · rcases hzero with hzero | hzero | hzero <;> exact hofNat _ (by omega) (by omega) hzero
  · rcases hzero with hzero | hzero | hzero | hzero <;>
      exact hofNat _ (by omega) (by omega) hzero

/-- An ASCII text has a byte for each character. -/
theorem utf8_of_ascii {s : Str} (h : ∀ c ∈ s, c.toNat < 0x80) :
    utf8 s = s.map fun c => UInt8.ofNat c.toNat := by
  induction s with
  | nil => rfl
  | cons c s ih =>
    obtain ⟨hc, hs⟩ := List.forall_mem_cons.mp h
    have hchar : String.utf8EncodeChar c = [UInt8.ofNat c.toNat] := by
      unfold String.utf8EncodeChar
      rw [if_pos (Nat.le_of_lt_succ hc : c.val.toNat ≤ 0x7f)]
      rfl
    rw [utf8_cons, hchar, ih hs]
    rfl

/-! ### Lossy decoding -/

/-- The range of the byte behind a first byte of a character of several bytes,
    and how many more continuation bytes follow that one. -/
def secondByte (b : UInt8) : Option (Nat × Nat × Nat) :=
  let v := b.toNat
  if 0xC2 ≤ v ∧ v ≤ 0xDF then some (0x80, 0xBF, 0)
  else if v = 0xE0 then some (0xA0, 0xBF, 1)
  else if v = 0xED then some (0x80, 0x9F, 1)
  else if 0xE1 ≤ v ∧ v ≤ 0xEF then some (0x80, 0xBF, 1)
  else if v = 0xF0 then some (0x90, 0xBF, 2)
  else if v = 0xF4 then some (0x80, 0x8F, 2)
  else if 0xF1 ≤ v ∧ v ≤ 0xF3 then some (0x80, 0xBF, 2)
  else none

/-- The character of a first byte and its continuation bytes. -/
def charOfUtf8 (first : UInt8) (more : Bytes) : Char :=
  Char.ofNat (more.foldl (fun n b => n * 64 + b.toNat % 64) (first.toNat % 2 ^ (6 - more.length)))

/-- What `lossy` takes off the front: a character, or the replacement character
    for as many bytes as start one. -/
def lossyChar (first : UInt8) (rest : Bytes) : Char × Nat :=
  if first.toNat < 0x80 then (Char.ofNat first.toNat, 0)
  else match secondByte first, rest with
    | some (lo, hi, more), second :: rest' =>
        if lo ≤ second.toNat ∧ second.toNat ≤ hi then
          let tail := (rest'.take more).takeWhile fun b => 0x80 ≤ b.toNat ∧ b.toNat ≤ 0xBF
          if tail.length = more then (charOfUtf8 first (second :: tail), more + 1)
          else (Char.ofNat 0xFFFD, tail.length + 1)
        else (Char.ofNat 0xFFFD, 0)
    | _, _ => (Char.ofNat 0xFFFD, 0)

def lossy : Nat → Bytes → Str
  | 0, _ => []
  | _ + 1, [] => []
  | fuel + 1, first :: rest =>
      let (c, taken) := lossyChar first rest
      c :: lossy fuel (rest.drop taken)

/-- `String::from_utf8_lossy`. -/
def fromUtf8Lossy (b : Bytes) : Str := lossy b.length b

example : fromUtf8Lossy [0x61, 0xC3, 0xA9, 0xE2, 0x82, 0xAC, 0xF0, 0x9F, 0x98, 0x80] =
    ['a', 'é', '€', '😀'] := by decide

example : fromUtf8Lossy [0xE2, 0x82, 0x41, 0xFF, 0xF0, 0x9F] =
    [Char.ofNat 0xFFFD, 'A', Char.ofNat 0xFFFD, Char.ofNat 0xFFFD] := by decide

theorem lossy_of_le {fuel : Nat} {b : Bytes} (h : b.length ≤ fuel) :
    lossy fuel b = fromUtf8Lossy b := by
  unfold fromUtf8Lossy
  induction fuel using Nat.strong_induction_on generalizing b with
  | _ fuel ih =>
    cases b with
    | nil => cases fuel <;> rfl
    | cons first rest =>
      obtain ⟨fuel, rfl⟩ : ∃ k, fuel = k + 1 := ⟨fuel - 1, by simp at h; omega⟩
      simp only [List.length_cons, Nat.add_le_add_iff_right] at h
      have hdrop : (rest.drop (lossyChar first rest).2).length ≤ rest.length := by simp
      simp only [lossy, List.length_cons]
      rw [ih fuel (by omega) (by omega)]
      by_cases hlt : rest.length < fuel + 1
      · rw [ih rest.length hlt hdrop]
      · omega

theorem fromUtf8Lossy_cons (first : UInt8) (rest : Bytes) :
    fromUtf8Lossy (first :: rest) =
      (lossyChar first rest).1 :: fromUtf8Lossy (rest.drop (lossyChar first rest).2) := by
  conv_lhs => unfold fromUtf8Lossy
  simp only [List.length_cons, lossy]
  rw [lossy_of_le (by simp)]

/-- The rows of the table. -/
theorem secondByte_cases {b : UInt8} {lo hi more : Nat} (h : secondByte b = some (lo, hi, more)) :
    (0xC2 ≤ b.toNat ∧ b.toNat ≤ 0xDF ∧ 0x80 ≤ lo ∧ hi ≤ 0xBF ∧ more = 0) ∨
      (0xE0 ≤ b.toNat ∧ b.toNat ≤ 0xEF ∧ 0x80 ≤ lo ∧ hi ≤ 0xBF ∧ more = 1 ∧
        (b.toNat = 0xE0 → lo = 0xA0) ∧ (b.toNat = 0xED → hi = 0x9F)) ∨
      (0xF0 ≤ b.toNat ∧ b.toNat ≤ 0xF4 ∧ 0x80 ≤ lo ∧ hi ≤ 0xBF ∧ more = 2 ∧
        (b.toNat = 0xF0 → lo = 0x90) ∧ (b.toNat = 0xF4 → hi = 0x8F)) := by
  have hrow : ∀ {lo' hi' more' : Nat}, some (lo', hi', more') = some (lo, hi, more) →
      lo' = lo ∧ hi' = hi ∧ more' = more := by
    intro lo' hi' more' heq
    simpa using heq
  unfold secondByte at h
  simp only at h
  repeat'
    split at h
    · obtain ⟨rfl, rfl, rfl⟩ := hrow h
      omega
  cases h

theorem le_of_secondByte {b : UInt8} {lo hi more : Nat} (h : secondByte b = some (lo, hi, more)) :
    0x80 ≤ lo := by
  have hcases := secondByte_cases h
  omega

/-- What fails the test ends what is taken. -/
theorem takeWhile_take_append {p : UInt8 → Bool} {b : UInt8} (hb : p b = false) (l more : Bytes)
    (k : Nat) : ((l ++ b :: more).take k).takeWhile p = (l.take k).takeWhile p := by
  induction l generalizing k with
  | nil => cases k <;> simp [hb]
  | cons a l ih =>
    cases k with
    | zero => rfl
    | succ k => simp only [List.cons_append, List.take_succ_cons, List.takeWhile_cons, ih]

/-- A character ends before an ASCII byte. -/
theorem lossyChar_append {b : UInt8} (hb : b.toNat < 0x80) (first : UInt8) (rest more : Bytes) :
    lossyChar first (rest ++ b :: more) = lossyChar first rest ∧
      (lossyChar first rest).2 ≤ rest.length := by
  unfold lossyChar
  split
  · exact ⟨rfl, Nat.zero_le _⟩
  · cases hsecond : secondByte first with
    | none => exact ⟨rfl, Nat.zero_le _⟩
    | some range =>
      obtain ⟨lo, hi, k⟩ := range
      have hlo := le_of_secondByte hsecond
      cases rest with
      | nil => simp [show ¬ (lo ≤ b.toNat ∧ b.toNat ≤ hi) by omega]
      | cons second rest =>
        simp only [List.cons_append]
        split
        · have htail := takeWhile_take_append (p := fun b => 0x80 ≤ b.toNat ∧ b.toNat ≤ 0xBF)
            (b := b) (by simp; omega) rest more k
          rw [htail]
          refine ⟨rfl, ?_⟩
          have hlen : ((rest.take k).takeWhile fun b => 0x80 ≤ b.toNat ∧ b.toNat ≤ 0xBF).length ≤
              rest.length :=
            (List.takeWhile_sublist _).length_le.trans (List.length_take_le' _ _)
          split
          · next hk =>
            simp only [List.length_cons]
            omega
          · simp only [List.length_cons]
            omega
        · exact ⟨rfl, Nat.zero_le _⟩

/-- An ASCII byte is a character of its own wherever it stands. -/
theorem fromUtf8Lossy_append {b : UInt8} (hb : b.toNat < 0x80) (front more : Bytes) :
    fromUtf8Lossy (front ++ b :: more) =
      fromUtf8Lossy front ++ Char.ofNat b.toNat :: fromUtf8Lossy more := by
  induction hn : front.length using Nat.strong_induction_on generalizing front with
  | _ n ih =>
    cases front with
    | nil =>
      rw [List.nil_append, fromUtf8Lossy_cons]
      simp [lossyChar, hb, fromUtf8Lossy, lossy]
    | cons first rest =>
      obtain ⟨hchar, htaken⟩ := lossyChar_append hb first rest more
      rw [List.cons_append, fromUtf8Lossy_cons, fromUtf8Lossy_cons first rest, hchar,
        List.drop_append_of_le_length htaken, ih _ (by simp at hn; simp; omega) _ rfl]
      rfl

/-- ASCII text is read as it is. -/
theorem fromUtf8Lossy_ascii_append {front : Bytes} (h : ∀ b ∈ front, b.toNat < 0x80)
    (more : Bytes) : fromUtf8Lossy (front ++ more) =
      (front.map fun b => Char.ofNat b.toNat) ++ fromUtf8Lossy more := by
  induction front with
  | nil => rfl
  | cons b front ih =>
    rw [List.cons_append, ← List.nil_append (b :: _), fromUtf8Lossy_append (h b (by simp)),
      ih fun b' hb' => h b' (by simp [hb'])]
    rfl

/-- The code of a character that is one byte. -/
theorem toNat_ofNat_byte (b : UInt8) : (Char.ofNat b.toNat).toNat = b.toNat := by
  have hvalid : b.toNat.isValidChar := .inl (by have := b.toNat_lt; omega)
  rw [Char.ofNat, dif_pos hvalid]
  rfl

theorem le_toNat_ofNat {n : Nat} (h : 0x80 ≤ n)
    (hvalid : n < 0xD800 ∨ 0xDFFF < n ∧ n < 0x110000) : 0x80 ≤ (Char.ofNat n).toNat := by
  have hisValid : n.isValidChar := hvalid
  have htoNat : (Char.ofNat n).toNat = n := by
    rw [Char.ofNat, dif_pos hisValid]
    rfl
  rw [htoNat]
  exact h

/-- The characters of several bytes are not ASCII. -/
theorem le_toNat_charOfUtf8 {first second : UInt8} {lo hi more : Nat} {tail : Bytes}
    (hsecond : secondByte first = some (lo, hi, more)) (hlo : lo ≤ second.toNat)
    (hhi : second.toNat ≤ hi) (htail : tail.length = more) :
    0x80 ≤ (charOfUtf8 first (second :: tail)).toNat := by
  have hcases := secondByte_cases hsecond
  unfold charOfUtf8
  match tail with
  | [] =>
    obtain rfl : more = 0 := htail.symm
    apply le_toNat_ofNat <;> simp <;> omega
  | [t] =>
    obtain rfl : more = 1 := htail.symm
    apply le_toNat_ofNat <;> simp <;> omega
  | [t, u] =>
    obtain rfl : more = 2 := htail.symm
    apply le_toNat_ofNat <;> simp <;> omega
  | t :: u :: v :: rest =>
    simp at htail
    omega

theorem le_toNat_lossyChar {first : UInt8} (hfirst : 0x80 ≤ first.toNat) (rest : Bytes) :
    0x80 ≤ (lossyChar first rest).1.toNat := by
  unfold lossyChar
  rw [if_neg (Nat.not_lt.mpr hfirst)]
  split
  · next lo hi more second rest' hsecond =>
    split
    · next hrange =>
      simp only
      split
      · next htail => exact le_toNat_charOfUtf8 hsecond hrange.1 hrange.2 htail
      · exact le_toNat_ofNat (by omega) (by omega)
    · exact le_toNat_ofNat (by omega) (by omega)
  · exact le_toNat_ofNat (by omega) (by omega)

/-- ASCII characters come from ASCII bytes. -/
theorem byte_of_mem_fromUtf8Lossy {c : Char} {b : Bytes} (h : c ∈ fromUtf8Lossy b)
    (hc : c.toNat < 0x80) : ∃ x ∈ b, c = Char.ofNat x.toNat := by
  induction hn : b.length using Nat.strong_induction_on generalizing b with
  | _ n ih =>
    cases b with
    | nil => cases h
    | cons first rest =>
      rw [fromUtf8Lossy_cons] at h
      rcases List.mem_cons.mp h with hhead | htail
      · by_cases hfirst : first.toNat < 0x80
        · refine ⟨first, by simp, ?_⟩
          rw [hhead]
          simp [lossyChar, hfirst]
        · have := le_toNat_lossyChar (Nat.not_lt.mp hfirst) rest
          rw [← hhead] at this
          omega
      · obtain ⟨x, hx, rfl⟩ := ih _ (by simp at hn; simp; omega) htail rfl
        exact ⟨x, List.mem_cons_of_mem _ (List.mem_of_mem_drop hx), rfl⟩

theorem toNat_ofNat_lt {n : Nat} (h : n < 256) : (UInt8.ofNat n).toNat = n := by
  rw [UInt8.toNat_ofNat', Nat.mod_eq_of_lt h]

/-- A character of several bytes. -/
theorem lossyChar_of_secondByte {first second : UInt8} {lo hi more : Nat} {tail : Bytes}
    (hrange : secondByte first = some (lo, hi, more)) (hfirst : 0x80 ≤ first.toNat)
    (hlo : lo ≤ second.toNat) (hhi : second.toNat ≤ hi) (htail : tail.length = more)
    (hcont : ∀ b ∈ tail, 0x80 ≤ b.toNat ∧ b.toNat ≤ 0xBF) (rest : Bytes) :
    lossyChar first (second :: tail ++ rest) =
      (charOfUtf8 first (second :: tail), (second :: tail).length) := by
  have htake : ((tail ++ rest).take more).takeWhile (fun b => 0x80 ≤ b.toNat ∧ b.toNat ≤ 0xBF) =
      tail := by
    rw [← htail, List.take_left]
    exact List.takeWhile_eq_self_iff.mpr fun b hb => by simpa using hcont b hb
  unfold lossyChar
  rw [if_neg (Nat.not_lt.mpr hfirst)]
  simp only [hrange, List.cons_append]
  rw [if_pos ⟨hlo, hhi⟩, htake, if_pos htail, List.length_cons, htail]

theorem secondByte_two {b : UInt8} (h : 0xC2 ≤ b.toNat) (h' : b.toNat ≤ 0xDF) :
    secondByte b = some (0x80, 0xBF, 0) := by
  unfold secondByte
  exact if_pos ⟨h, h'⟩

/-- Characters of three bytes: `0xE0` and `0xED` narrow the second byte. -/
theorem secondByte_three {b : UInt8} {second : Nat} (hfirst : 0xE0 ≤ b.toNat ∧ b.toNat ≤ 0xEF)
    (hsecond : 0x80 ≤ second ∧ second ≤ 0xBF) (hlow : b.toNat = 0xE0 → 0xA0 ≤ second)
    (hhigh : b.toNat = 0xED → second ≤ 0x9F) :
    ∃ lo hi, secondByte b = some (lo, hi, 1) ∧ lo ≤ second ∧ second ≤ hi := by
  unfold secondByte
  simp only
  rw [if_neg (by omega)]
  by_cases hE0 : b.toNat = 0xE0
  · rw [if_pos hE0]
    exact ⟨_, _, rfl, hlow hE0, hsecond.2⟩
  · rw [if_neg hE0]
    by_cases hED : b.toNat = 0xED
    · rw [if_pos hED]
      exact ⟨_, _, rfl, hsecond.1, hhigh hED⟩
    · rw [if_neg hED, if_pos (by omega)]
      exact ⟨_, _, rfl, hsecond⟩

/-- Characters of four bytes: `0xF0` and `0xF4` do. -/
theorem secondByte_four {b : UInt8} {second : Nat} (hfirst : 0xF0 ≤ b.toNat ∧ b.toNat ≤ 0xF4)
    (hsecond : 0x80 ≤ second ∧ second ≤ 0xBF) (hlow : b.toNat = 0xF0 → 0x90 ≤ second)
    (hhigh : b.toNat = 0xF4 → second ≤ 0x8F) :
    ∃ lo hi, secondByte b = some (lo, hi, 2) ∧ lo ≤ second ∧ second ≤ hi := by
  unfold secondByte
  simp only
  rw [if_neg (by omega), if_neg (by omega), if_neg (by omega), if_neg (by omega)]
  by_cases hF0 : b.toNat = 0xF0
  · rw [if_pos hF0]
    exact ⟨_, _, rfl, hlow hF0, hsecond.2⟩
  · rw [if_neg hF0]
    by_cases hF4 : b.toNat = 0xF4
    · rw [if_pos hF4]
      exact ⟨_, _, rfl, hsecond.1, hhigh hF4⟩
    · rw [if_neg hF4, if_pos (by omega)]
      exact ⟨_, _, rfl, hsecond⟩

/-- A character is read back from its bytes. -/
theorem lossyChar_utf8EncodeChar (c : Char) (rest : Bytes) :
    ∃ first more, String.utf8EncodeChar c = first :: more ∧
      lossyChar first (more ++ rest) = (c, more.length) := by
  have hvalid := c.valid
  simp only [UInt32.isValidChar, Nat.isValidChar] at hvalid
  have hchar : ∀ n, n = c.val.toNat → Char.ofNat n = c := by
    rintro n rfl
    exact Char.ofNat_toNat c
  have hcont : ∀ n, 0x80 ≤ (UInt8.ofNat (n % 64 + 128)).toNat ∧
      (UInt8.ofNat (n % 64 + 128)).toNat ≤ 0xBF := by
    intro n
    rw [toNat_ofNat_lt (by omega)]
    omega
  unfold String.utf8EncodeChar
  simp only
  generalize c.val.toNat = v at hvalid hchar ⊢
  split_ifs with h₁ h₂ h₃
  · refine ⟨_, _, rfl, ?_⟩
    have hfirst := toNat_ofNat_lt (show v < 256 by omega)
    unfold lossyChar
    rw [hfirst, if_pos (by omega), hchar _ rfl]
    rfl
  · refine ⟨_, _, rfl, ?_⟩
    have hfirst := toNat_ofNat_lt (show v / 64 % 32 + 192 < 256 by omega)
    have hrange := secondByte_two (b := UInt8.ofNat (v / 64 % 32 + 192)) (by omega) (by omega)
    rw [lossyChar_of_secondByte hrange (by omega) (hcont _).1 (hcont _).2 rfl (by simp), charOfUtf8]
    refine Prod.ext (hchar _ ?_) rfl
    simp
    omega
  · refine ⟨_, _, rfl, ?_⟩
    have hfirst := toNat_ofNat_lt (show v / 4096 % 16 + 224 < 256 by omega)
    have hsecond := toNat_ofNat_lt (show v / 64 % 64 + 128 < 256 by omega)
    obtain ⟨lo, hi, hrange, hlo, hhi⟩ : ∃ lo hi,
        secondByte (UInt8.ofNat (v / 4096 % 16 + 224)) = some (lo, hi, 1) ∧
          lo ≤ v / 64 % 64 + 128 ∧ v / 64 % 64 + 128 ≤ hi :=
      secondByte_three (by omega) (by omega) (by omega) (by omega)
    rw [lossyChar_of_secondByte hrange (by omega) (by omega) (by omega) rfl
      (by simpa using hcont _), charOfUtf8]
    refine Prod.ext (hchar _ ?_) rfl
    simp
    omega
  · refine ⟨_, _, rfl, ?_⟩
    have hfirst := toNat_ofNat_lt (show v / 262144 % 8 + 240 < 256 by omega)
    have hsecond := toNat_ofNat_lt (show v / 4096 % 64 + 128 < 256 by omega)
    obtain ⟨lo, hi, hrange, hlo, hhi⟩ : ∃ lo hi,
        secondByte (UInt8.ofNat (v / 262144 % 8 + 240)) = some (lo, hi, 2) ∧
          lo ≤ v / 4096 % 64 + 128 ∧ v / 4096 % 64 + 128 ≤ hi :=
      secondByte_four (by omega) (by omega) (by omega) (by omega)
    rw [lossyChar_of_secondByte hrange (by omega) (by omega) (by omega) rfl
      (by simpa using ⟨hcont _, hcont _⟩), charOfUtf8]
    refine Prod.ext (hchar _ ?_) rfl
    simp
    omega

/-- Text is read back from its bytes. -/
theorem fromUtf8Lossy_utf8_append (s : Str) (rest : Bytes) :
    fromUtf8Lossy (utf8 s ++ rest) = s ++ fromUtf8Lossy rest := by
  induction s with
  | nil => rfl
  | cons c s ih =>
    obtain ⟨first, more, hbytes, hchar⟩ := lossyChar_utf8EncodeChar c (utf8 s ++ rest)
    rw [utf8_cons, hbytes, List.append_assoc, List.cons_append, fromUtf8Lossy_cons, hchar,
      List.drop_left, ih]
    rfl
/-! ### Splitting and trimming -/

/-- `split_once`. -/
def splitOnce (c : Char) : Str → Option (Str × Str)
  | [] => none
  | x :: xs =>
      if x = c then some ([], xs)
      else (splitOnce c xs).map fun r => (x :: r.1, r.2)

/-- `splitn(n, c)`. -/
def splitn (c : Char) : Nat → Str → List Str
  | 0, _ => []
  | 1, s => [s]
  | n + 2, s =>
      match splitOnce c s with
      | none => [s]
      | some (first, rest) => first :: splitn c (n + 1) rest

/-- `char::is_whitespace`: the Unicode property `White_Space`. -/
def isWhitespace (c : Char) : Bool :=
  let v := c.toNat
  (9 ≤ v && v ≤ 13) || v == 0x20 || v == 0x85 || v == 0xA0 || v == 0x1680 ||
    (0x2000 ≤ v && v ≤ 0x200A) || v == 0x2028 || v == 0x2029 || v == 0x202F || v == 0x205F ||
    v == 0x3000

def splitWhitespace (s : Str) : List Str := (s.splitOnP isWhitespace).filter (· ≠ [])

/-- `trim_end_matches(c)`. -/
def trimEndMatches (c : Char) (s : Str) : Str := s.rdropWhile (· == c)

/-- `trim_matches(c)`. -/
def trimMatches (c : Char) (s : Str) : Str := trimEndMatches c (s.dropWhile (· == c))

def trim (s : Str) : Str := (s.dropWhile isWhitespace).rdropWhile isWhitespace

def trimEnd (s : Str) : Str := s.rdropWhile isWhitespace

theorem trimEnd_append {blanks : Str} (h : ∀ c ∈ blanks, isWhitespace c = true) (s : Str) :
    trimEnd (s ++ blanks) = trimEnd s := by
  unfold trimEnd List.rdropWhile
  rw [List.reverse_append, List.dropWhile_append_of_pos (by simpa using h)]

/-- Blanks at the end do not matter. -/
theorem trim_append {blanks : Str} (h : ∀ c ∈ blanks, isWhitespace c = true) (s : Str) :
    trim (s ++ blanks) = trim s := by
  show trimEnd _ = trimEnd _
  rw [List.dropWhile_append]
  split
  · next hall =>
    rw [List.isEmpty_iff.mp hall, List.dropWhile_eq_nil_iff.mpr h]
  · exact trimEnd_append h _

theorem trim_blanks_append {blanks : Str} (h : ∀ c ∈ blanks, isWhitespace c = true) (s : Str) :
    trim (blanks ++ s) = trim s := by
  rw [trim, List.dropWhile_append_of_pos h]
  rfl

/-- What does not end in a blank is not shortened. -/
theorem trimEnd_concat {c : Char} (hc : isWhitespace c = false) (s : Str) :
    trimEnd (s ++ [c]) = s ++ [c] := List.rdropWhile_concat_neg _ _ _ (by simp [hc])

theorem trimEnd_append_cons {c : Char} (hc : isWhitespace c = false) (s t : Str) :
    trimEnd (s ++ c :: t) = s ++ c :: trimEnd t := by
  unfold trimEnd List.rdropWhile
  rw [List.reverse_append, List.reverse_cons, List.append_assoc, List.dropWhile_append]
  split
  · next hall => simp [List.isEmpty_iff.mp hall, hc]
  · simp

theorem trimEnd_of_none {s : Str} (h : ∀ c ∈ s, isWhitespace c = false) : trimEnd s = s := by
  rcases List.eq_nil_or_concat s with rfl | ⟨front, c, rfl⟩
  · rfl
  · rw [List.concat_eq_append] at h ⊢
    exact trimEnd_concat (h c (by simp)) front

theorem trim_of_none {s : Str} (h : ∀ c ∈ s, isWhitespace c = false) : trim s = s := by
  have hfront : s.dropWhile isWhitespace = s := by
    cases s with
    | nil => rfl
    | cons c s => simp [h c (by simp)]
  show trimEnd _ = _
  rw [hfront, trimEnd_of_none h]

/-- The blanks at the end. -/
theorem exists_trimEnd (s : Str) :
    ∃ blanks, (∀ c ∈ blanks, isWhitespace c = true) ∧ s = trimEnd s ++ blanks :=
  ⟨s.rtakeWhile isWhitespace, fun _ hc => List.mem_rtakeWhile_imp hc,
    List.rdropWhile_append_rtakeWhile.symm⟩

/-- The white space that is trimmed. -/
theorem exists_trim (s : Str) :
    ∃ lead trail, (∀ c ∈ lead, isWhitespace c = true) ∧ (∀ c ∈ trail, isWhitespace c = true) ∧
      s = lead ++ (trim s ++ trail) := by
  obtain ⟨trail, htrail, hs⟩ := exists_trimEnd (s.dropWhile isWhitespace)
  refine ⟨s.takeWhile isWhitespace, trail, fun c hc => List.mem_takeWhile_imp hc, htrail, ?_⟩
  calc s = s.takeWhile isWhitespace ++ s.dropWhile isWhitespace :=
        List.takeWhile_append_dropWhile.symm
    _ = _ := congrArg _ hs

theorem trim_trimEnd (s : Str) : trim (trimEnd s) = trim s := by
  obtain ⟨blanks, hblanks, hs⟩ := exists_trimEnd s
  conv_rhs => rw [hs, trim_append hblanks]

theorem trim_trim (s : Str) : trim (trim s) = trim s := by
  have hfront : (trim s).dropWhile isWhitespace = trim s := by
    obtain ⟨blanks, -, hs⟩ := exists_trimEnd (s.dropWhile isWhitespace)
    -- the first character that is left is the first one that is no blank
    cases htrim : trim s with
    | nil => rfl
    | cons c rest =>
      have hdrop : s.dropWhile isWhitespace = c :: (rest ++ blanks) := by
        rw [hs]
        show trim s ++ blanks = _
        rw [htrim]
        rfl
      have hc : isWhitespace c = false := by
        have := List.head?_dropWhile_not isWhitespace s
        rw [hdrop] at this
        simpa using this
      simp [hc]
  show trimEnd ((trim s).dropWhile isWhitespace) = _
  rw [hfront]
  exact List.rdropWhile_idempotent _ _

/-- The lines of a text of which `cur` was read, backwards, of the first. -/
def linesFrom (cur : Str) : Str → List Str
  | [] => if cur = [] then [] else [cur.reverse]
  | c :: rest =>
      if c = '\n' then
        (if cur.head? = some '\r' then cur.tail else cur).reverse :: linesFrom [] rest
      else linesFrom (c :: cur) rest

/-- `str::lines`: lines end in a line feed, which a carriage return may precede. -/
def lines (s : Str) : List Str := linesFrom [] s

theorem linesFrom_append {l : Str} (h : '\n' ∉ l) (cur rest : Str) :
    linesFrom cur (l ++ '\r' :: '\n' :: rest) = (cur.reverse ++ l) :: lines rest := by
  induction l generalizing cur with
  | nil => simp [linesFrom, lines]
  | cons c l ih =>
    rw [List.mem_cons, not_or] at h
    rw [List.cons_append, linesFrom, if_neg (Ne.symm h.1), ih h.2]
    simp

theorem lines_append {l : Str} (h : '\n' ∉ l) (rest : Str) :
    lines (l ++ '\r' :: '\n' :: rest) = l :: lines rest := by
  exact linesFrom_append h [] rest

theorem splitOnce_eq_some {c : Char} {s a b : Str} (h : splitOnce c s = some (a, b)) :
    s = a ++ c :: b := by
  induction s generalizing a b with
  | nil => simp [splitOnce] at h
  | cons x xs ih =>
    unfold splitOnce at h
    split_ifs at h with hx
    · simp only [Option.some.injEq, Prod.mk.injEq] at h
      obtain ⟨rfl, rfl⟩ := h
      simp [hx]
    · obtain ⟨⟨a', b'⟩, hab, heq⟩ := Option.map_eq_some_iff.mp h
      simp only [Prod.mk.injEq] at heq
      obtain ⟨rfl, rfl⟩ := heq
      simp [ih hab]

theorem splitOnce_append {c : Char} {s : Str} (h : c ∉ s) (rest : Str) :
    splitOnce c (s ++ c :: rest) = some (s, rest) := by
  induction s with
  | nil => simp [splitOnce]
  | cons x s ih =>
    rw [List.mem_cons, not_or] at h
    rw [List.cons_append, splitOnce, if_neg (Ne.symm h.1), ih h.2]
    rfl

theorem byteLen_le_of_sublist {s t : Str} (h : s.Sublist t) : byteLen s ≤ byteLen t := by
  induction h with
  | slnil => exact Nat.le_refl _
  | cons c _ ih => rw [byteLen_cons]; omega
  | cons_cons c _ ih => rw [byteLen_cons, byteLen_cons]; omega

theorem byteLen_trimMatches_le (c : Char) (s : Str) : byteLen (trimMatches c s) ≤ byteLen s :=
  byteLen_le_of_sublist
    ((List.rdropWhile_prefix _ _).sublist.trans (List.dropWhile_suffix _).sublist)

theorem splitn_ne_nil (c : Char) (n : Nat) (s : Str) : splitn c (n + 1) s ≠ [] := by
  cases n with
  | zero => simp [splitn]
  | succ n =>
    unfold splitn
    split <;> simp

/-- Joining the fields gives the text back. -/
theorem intercalate_splitn (c : Char) (n : Nat) (s : Str) :
    [c].intercalate (splitn c (n + 1) s) = s := by
  induction n generalizing s with
  | zero => simp [splitn]
  | succ n ih =>
    unfold splitn
    cases hsplit : splitOnce c s with
    | none => simp
    | some parts =>
      obtain ⟨first, rest⟩ := parts
      have hrest := ih rest
      cases hparts : splitn c (n + 1) rest with
      | nil => exact absurd hparts (splitn_ne_nil c n rest)
      | cons x xs =>
        rw [hparts] at hrest
        simp only [hparts]
        rw [List.intercalate_cons_cons, hrest, splitOnce_eq_some hsplit]
        simp

/-- The parts of a text and the separators between them are in the text. -/
theorem byteLen_splitOnP (p : Char → Bool) (s : Str) :
    ((s.splitOnP p).map fun part => byteLen part + 1).sum ≤ byteLen s + 1 := by
  induction s with
  | nil => simp [List.splitOnP_nil]
  | cons c s ih =>
    have hc := c.utf8Size_pos
    -- a separator starts a new part, any other character makes the first part longer
    rw [List.splitOnP_cons_eq_if_modifyHead, byteLen_cons]
    split
    · simp only [List.map_cons, byteLen_nil, List.sum_cons]
      omega
    · cases hparts : s.splitOnP p with
      | nil => exact absurd hparts (List.splitOnP_ne_nil _ _)
      | cons x xs =>
        rw [hparts] at ih
        simp only [List.modifyHead_cons, List.map_cons, List.sum_cons, byteLen_cons] at ih ⊢
        omega

/-- No part has a separator in it. -/
theorem notMem_of_mem_splitOn {α : Type*} [BEq α] [LawfulBEq α] {c : α} {s part : List α}
    (h : part ∈ s.splitOn c) : c ∉ part := by
  induction s generalizing part with
  | nil =>
    rw [List.splitOn_nil, List.mem_singleton] at h
    simp [h]
  | cons x s ih =>
    rw [List.splitOn_cons_eq_if_modifyHead] at h
    split at h
    · rcases List.mem_cons.mp h with rfl | h
      · simp
      · exact ih h
    · next hx =>
      cases hparts : s.splitOn c with
      | nil => exact absurd hparts (List.splitOn_ne_nil _ _)
      | cons first parts =>
        rw [hparts, List.modifyHead_cons] at h
        rw [hparts] at ih
        rcases List.mem_cons.mp h with rfl | h
        · have hne : c ≠ x := fun heq => hx (by simp [heq])
          simp [hne, ih]
        · exact ih (List.mem_cons_of_mem _ h)

/-- The same for some of the parts. -/
theorem byteLen_filter_splitOnP (p : Char → Bool) (q : Str → Bool) (s : Str) :
    (((s.splitOnP p).filter q).map fun part => byteLen part + 1).sum ≤ byteLen s + 1 := by
  have hsub : ((s.splitOnP p).filter q).Sublist (s.splitOnP p) := List.filter_sublist
  exact (List.Sublist.sum_le_sum (hsub.map _) (by simp)).trans (byteLen_splitOnP p s)

theorem byteLen_splitWhitespace (s : Str) :
    ((splitWhitespace s).map fun part => byteLen part + 1).sum ≤ byteLen s + 1 :=
  byteLen_filter_splitOnP isWhitespace _ s

theorem ne_nil_of_mem_splitWhitespace {s part : Str} (h : part ∈ splitWhitespace s) :
    part ≠ [] := by
  simpa using (List.mem_filter.mp h).2

/-- Every character is white space or in a part. -/
theorem mem_splitWhitespace {s : Str} {c : Char} (h : c ∈ s) :
    isWhitespace c = true ∨ ∃ part ∈ splitWhitespace s, c ∈ part := by
  have hall : isWhitespace c = true ∨ ∃ part ∈ s.splitOnP isWhitespace, c ∈ part := by
    induction s with
    | nil => cases h
    | cons d s ih =>
      rw [List.splitOnP_cons_eq_if_modifyHead]
      rcases List.mem_cons.mp h with rfl | h
      · split
        · next hblank => exact .inl hblank
        · cases hparts : s.splitOnP isWhitespace with
          | nil => exact absurd hparts (List.splitOnP_ne_nil _ _)
          | cons x xs => exact .inr ⟨c :: x, by simp, by simp⟩
      · rcases ih h with hblank | ⟨part, hpart, hc⟩
        · exact .inl hblank
        · right
          split
          · exact ⟨part, List.mem_cons_of_mem _ hpart, hc⟩
          · cases hparts : s.splitOnP isWhitespace with
            | nil => exact absurd hparts (List.splitOnP_ne_nil _ _)
            | cons x xs =>
              rw [hparts] at hpart
              rcases List.mem_cons.mp hpart with rfl | hpart
              · exact ⟨d :: part, by simp, List.mem_cons_of_mem _ hc⟩
              · exact ⟨part, by simp [hpart], hc⟩
  rcases hall with hblank | ⟨part, hpart, hc⟩
  · exact .inl hblank
  · exact .inr ⟨part, List.mem_filter.mpr ⟨hpart, by simpa using List.ne_nil_of_mem hc⟩, hc⟩

theorem splitWhitespace_blank_cons {c : Char} (h : isWhitespace c = true) (s : Str) :
    splitWhitespace (c :: s) = splitWhitespace s := by
  unfold splitWhitespace
  rw [List.splitOnP_cons_eq_if_modifyHead, if_pos h]
  simp

/-- Takes the first part off a text; what is left starts with white space. -/
theorem exists_of_splitWhitespace_cons {s part : Str} {parts : List Str}
    (h : splitWhitespace s = part :: parts) :
    ∃ front rest, s = front ++ rest ∧ splitWhitespace rest = parts ∧
      ∀ c ∈ rest.head?, isWhitespace c = true := by
  induction s generalizing part with
  | nil => simp [splitWhitespace, List.splitOnP_nil] at h
  | cons c s ih =>
    by_cases hblank : isWhitespace c = true
    · rw [splitWhitespace_blank_cons hblank] at h
      obtain ⟨front, rest, rfl, hrest⟩ := ih h
      exact ⟨c :: front, rest, rfl, hrest⟩
    · have hcons : splitWhitespace (c :: s) =
          ((s.splitOnP isWhitespace).modifyHead (c :: ·)).filter (· ≠ []) := by
        unfold splitWhitespace
        rw [List.splitOnP_cons_eq_if_modifyHead, if_neg hblank]
      cases s with
      | nil =>
        rw [hcons, List.splitOnP_nil] at h
        obtain ⟨-, rfl⟩ : [c] = part ∧ [] = parts := by simpa using h
        exact ⟨[c], [], rfl, rfl, by simp⟩
      | cons d s =>
        by_cases hnext : isWhitespace d = true
        · refine ⟨[c], d :: s, rfl, ?_, by simpa using hnext⟩
          rw [hcons, List.splitOnP_cons_eq_if_modifyHead, if_pos hnext] at h
          rw [splitWhitespace_blank_cons hnext]
          simpa [splitWhitespace] using (List.cons.inj (by simpa using h)).2
        · rw [hcons, List.splitOnP_cons_eq_if_modifyHead, if_neg hnext] at h
          have hrest : ∃ part, splitWhitespace (d :: s) = part :: parts := by
            unfold splitWhitespace
            rw [List.splitOnP_cons_eq_if_modifyHead, if_neg hnext]
            cases hparts : s.splitOnP isWhitespace with
            | nil => exact absurd hparts (List.splitOnP_ne_nil _ _)
            | cons x xs =>
              rw [hparts] at h
              obtain ⟨-, hxs⟩ : c :: d :: x = part ∧ xs.filter (· ≠ []) = parts := by simpa using h
              exact ⟨d :: x, by simpa using hxs⟩
          obtain ⟨_, hrest⟩ := hrest
          obtain ⟨front, rest, heq, hparts⟩ := ih hrest
          exact ⟨c :: front, rest, by rw [heq]; rfl, hparts⟩

/-- Trimming removes trailing characters. -/
theorem exists_trimEndMatches (c : Char) (s : Str) :
    ∃ n, s = trimEndMatches c s ++ List.replicate n c := by
  refine ⟨(s.rtakeWhile (· == c)).length, ?_⟩
  have hall : s.rtakeWhile (· == c) = List.replicate (s.rtakeWhile (· == c)).length c := by
    rw [List.eq_replicate_iff]
    exact ⟨rfl, fun x hx => by simpa using List.mem_rtakeWhile_imp hx⟩
  rw [← hall]
  exact List.rdropWhile_append_rtakeWhile.symm

/-! ### Numbers -/

def decimalValue (digits : Str) : Nat := digits.foldl (fun n c => n * 10 + (c.toNat - 48)) 0

/-- `str::parse` of an unsigned integer type with maximum `max`: an optional
    plus sign and at least one decimal digit. -/
def parseUnsigned (max : Nat) (s : Str) : Option Nat :=
  let digits := match s with
    | '+' :: rest => rest
    | _ => s
  if digits ≠ [] ∧ digits.all Char.isDigit ∧ decimalValue digits ≤ max then
    some (decimalValue digits)
  else none

def parseU8 (s : Str) : Option UInt8 := (parseUnsigned 255 s).map UInt8.ofNat

def parseU16 (s : Str) : Option UInt16 := (parseUnsigned 65535 s).map UInt16.ofNat

def parseU32 (s : Str) : Option UInt32 := (parseUnsigned 4294967295 s).map UInt32.ofNat

/-- A number has at least one character. -/
theorem parseUnsigned_ne_nil {max n : Nat} {s : Str} (h : parseUnsigned max s = some n) :
    s ≠ [] := by
  rintro rfl
  simp [parseUnsigned] at h

theorem parseU8_ne_nil {n : UInt8} {s : Str} (h : parseU8 s = some n) : s ≠ [] := by
  obtain ⟨m, hm, -⟩ := Option.map_eq_some_iff.mp h
  exact parseUnsigned_ne_nil hm

/-- A number without a plus sign is its digits. -/
theorem digits_of_parseUnsigned {max n : Nat} {s : Str} (h : parseUnsigned max s = some n)
    (hsign : s.head? ≠ some '+') :
    s ≠ [] ∧ s.all Char.isDigit = true ∧ n = decimalValue s ∧ n ≤ max := by
  unfold parseUnsigned at h
  simp only at h
  split at h
  · simp at hsign
  · split at h
    · next hall =>
      obtain rfl := Option.some.inj h
      exact ⟨hall.1, hall.2.1, rfl, hall.2.2⟩
    · cases h

/-- A text of `n` digits has a value below `10 ^ n`. -/
theorem decimalValue_lt {s : Str} (h : s.all Char.isDigit = true) :
    decimalValue s < 10 ^ s.length := by
  have hfold : ∀ (s : Str) (n : Nat), s.all Char.isDigit = true →
      s.foldl (fun n c => n * 10 + (c.toNat - 48)) n + 1 ≤ (n + 1) * 10 ^ s.length := by
    intro s
    induction s with
    | nil => intro n _; simp
    | cons c s ih =>
      intro n hall
      obtain ⟨hc, hs⟩ := Bool.and_eq_true_iff.mp hall
      have hdigit : c.toNat - 48 ≤ 9 := by
        have hrange : '0'.toNat ≤ c.toNat ∧ c.toNat ≤ '9'.toNat := Char.isDigit_iff_toNat.mp hc
        have h9 : '9'.toNat = 57 := rfl
        omega
      have := ih (n * 10 + (c.toNat - 48)) hs
      rw [List.foldl_cons, List.length_cons, Nat.pow_succ]
      calc _ ≤ (n * 10 + (c.toNat - 48) + 1) * 10 ^ s.length := this
        _ ≤ ((n + 1) * 10) * 10 ^ s.length := Nat.mul_le_mul_right _ (by omega)
        _ = (n + 1) * (10 ^ s.length * 10) := by ring
  have hbound := hfold s 0 h
  unfold decimalValue
  omega

/-- `to_string` of an unsigned integer. -/
def decimal (n : Nat) : Str := Nat.toDigits 10 n

theorem isDigit_of_mem_decimal {n : Nat} {c : Char} (h : c ∈ decimal n) : c.isDigit = true :=
  Nat.isDigit_of_mem_toDigits (by decide) (by decide) h

theorem decimalValue_decimal (n : Nat) : decimalValue (decimal n) = n := by
  have hvalue := Nat.ofDigitChars_ten_toDigits (n := n)
  rw [Nat.ofDigitChars_eq_foldl] at hvalue
  rw [decimalValue, decimal]
  simpa [Nat.mul_comm] using hvalue

/-- Digits are read as their value. -/
theorem parseUnsigned_digits {max : Nat} {s : Str} (hne : s ≠ [])
    (hdigits : s.all Char.isDigit = true)
    (h : decimalValue s ≤ max) : parseUnsigned max s = some (decimalValue s) := by
  unfold parseUnsigned
  split
  · simp at hdigits
  · simp [hne, hdigits, h]

/-- What is written for a number is read as that number. -/
theorem parseUnsigned_decimal {max n : Nat} (h : n ≤ max) :
    parseUnsigned max (decimal n) = some n := by
  have hdigits : (decimal n).all Char.isDigit = true :=
    List.all_eq_true.mpr fun _ hc => isDigit_of_mem_decimal hc
  have hne : decimal n ≠ [] := Nat.toDigits_ne_nil
  have hle : decimalValue (decimal n) ≤ max := by rwa [decimalValue_decimal]
  have hparse := parseUnsigned_digits hne hdigits hle
  rwa [decimalValue_decimal] at hparse

theorem decimal_injective : Function.Injective decimal :=
  Function.LeftInverse.injective decimalValue_decimal

/-- A number followed by a character that is no digit can be told from the
    text behind it. -/
theorem decimal_append_inj {m n : Nat} {c : Char} (hc : c.isDigit = false) {s t : Str}
    (h : decimal m ++ c :: s = decimal n ++ c :: t) : m = n ∧ s = t := by
  have hspan : ∀ (k : Nat) (rest : Str),
      (decimal k ++ c :: rest).takeWhile Char.isDigit = decimal k := by
    intro k rest
    rw [List.takeWhile_append_of_pos fun _ => isDigit_of_mem_decimal,
      List.takeWhile_cons_of_neg (by simp [hc]), List.append_nil]
  have hnumber : decimal m = decimal n := by rw [← hspan m s, h, hspan n t]
  rw [hnumber] at h
  have hrest := List.append_cancel_left h
  exact ⟨decimal_injective hnumber, (List.cons.inj hrest).2⟩

/-! ### IP addresses

    `Ipv4Addr::from_str` and `Ipv6Addr::from_str`. A reader consumes a prefix
    of the text and leaves the rest; it fails without consuming anything. -/

def hexDigit (c : Char) : Option Nat :=
  if c.isDigit then some (c.toNat - 48)
  else if 97 ≤ c.toNat ∧ c.toNat ≤ 102 then some (c.toNat - 87)
  else if 65 ≤ c.toNat ∧ c.toNat ≤ 70 then some (c.toNat - 55)
  else none

def hexValue (s : Str) : Nat := s.foldl (fun n c => n * 16 + (hexDigit c).getD 0) 0

/-- `u32::from_str_radix(s, 16)`. -/
def parseHexU32 (s : Str) : Option Nat :=
  let digits := match s with
    | '+' :: rest => rest
    | _ => s
  if digits ≠ [] ∧ digits.all (fun c => (hexDigit c).isSome) ∧ hexValue digits ≤ 4294967295 then
    some (hexValue digits)
  else none

/-- `from_str_radix(s, 16)` of an unsigned integer type with maximum `max`. -/
def parseHex (max : Nat) (s : Str) : Option Nat :=
  let digits := match s with
    | '+' :: rest => rest
    | _ => s
  if digits ≠ [] ∧ digits.all (fun c => (hexDigit c).isSome) ∧ hexValue digits ≤ max then
    some (hexValue digits)
  else none

/-- `char::from_u32`. -/
def charFromU32 (n : Nat) : Option Char := if n.isValidChar then some (Char.ofNat n) else none

/-- The codes of the hexadecimal digits. -/
theorem toNat_of_hexDigit {c : Char} (h : (hexDigit c).isSome = true) :
    (48 ≤ c.toNat ∧ c.toNat ≤ 57) ∨ (65 ≤ c.toNat ∧ c.toNat ≤ 70) ∨
      (97 ≤ c.toNat ∧ c.toNat ≤ 102) := by
  unfold hexDigit at h
  split_ifs at h with h₁ h₂ h₃
  · left
    rw [Char.isDigit, Bool.and_eq_true, decide_eq_true_eq, decide_eq_true_eq] at h₁
    exact h₁
  · exact .inr (.inr h₂)
  · exact .inr (.inl h₃)
  · cases h

theorem parseHex_digits {max : Nat} {s : Str} (hne : s ≠ [])
    (hdigits : s.all (fun c => (hexDigit c).isSome) = true) :
    parseHex max s = if hexValue s ≤ max then some (hexValue s) else none := by
  unfold parseHex
  split
  · next rest => simp [hexDigit] at hdigits
  · simp [hne, hdigits]

theorem isWhitespace_of_hexDigit {c : Char} (h : (hexDigit c).isSome = true) :
    isWhitespace c = false := by
  have hrange := toNat_of_hexDigit h
  unfold isWhitespace
  simp
  omega

/-- Hexadecimal digits are ASCII. -/
theorem utf8Size_of_hexDigit {c : Char} {n : Nat} (h : hexDigit c = some n) : c.utf8Size = 1 := by
  have hlt : c.toNat < 128 := by
    have hrange := toNat_of_hexDigit (c := c) (by simp [h])
    omega
  unfold Char.utf8Size
  rw [if_pos]
  exact UInt32.le_iff_toNat_le.mpr (Nat.le_of_lt_succ hlt)

theorem isWhitespace_of_isDigit {c : Char} (h : c.isDigit = true) : isWhitespace c = false :=
  isWhitespace_of_hexDigit (by simp [hexDigit, h])

theorem byteLen_digits {s : Str} (h : s.all Char.isDigit = true) : byteLen s = s.length := by
  refine byteLen_of_utf8Size fun c hc => ?_
  have hdigit : c.isDigit = true := List.all_eq_true.mp h c hc
  exact utf8Size_of_hexDigit (n := c.toNat - 48) (by simp [hexDigit, hdigit])

/-- One octet: one to three decimal digits without a leading zero. -/
def readOctet (s : Str) : Option (UInt8 × Str) :=
  let digits := s.takeWhile Char.isDigit
  if digits ≠ [] ∧ digits.length ≤ 3 ∧ (digits.head? = some '0' → digits.length = 1) ∧
      decimalValue digits ≤ 255 then
    some (UInt8.ofNat (decimalValue digits), s.dropWhile Char.isDigit)
  else none

def readChar (c : Char) : Str → Option Str
  | [] => none
  | x :: xs => if x = c then some xs else none

def readIpv4 (s : Str) : Option (Bytes × Str) := do
  let (a, s) ← readOctet s
  let (b, s) ← (readChar '.' s).bind readOctet
  let (c, s) ← (readChar '.' s).bind readOctet
  let (d, s) ← (readChar '.' s).bind readOctet
  return ([a, b, c, d], s)

/-- One group of an IPv6 address: one to four hexadecimal digits. -/
def readGroup (s : Str) : Option (UInt16 × Str) :=
  let digits := s.takeWhile fun c => (hexDigit c).isSome
  if digits ≠ [] ∧ digits.length ≤ 4 then
    some (UInt16.ofNat (hexValue digits),
      s.dropWhile fun c => (hexDigit c).isSome)
  else none

/-- `read_groups` with room for `room` more groups, `first` if none was read
    before: groups behind colons, and an embedded IPv4 address in place of the
    last two. Returns the groups and whether an IPv4 address ended them. -/
def readGroups : Nat → Bool → Str → List UInt16 × Bool × Str
  | 0, _, s => ([], false, s)
  | room + 1, first, s =>
      let body := if first then some s else readChar ':' s
      -- an IPv4 address needs room for two groups
      match if room = 0 then none else body.bind readIpv4 with
      | some (octets, rest) =>
          ([u16FromBe (byteAt octets 0) (byteAt octets 1),
            u16FromBe (byteAt octets 2) (byteAt octets 3)], true, rest)
      | none =>
          match body.bind readGroup with
          | some (group, rest) =>
              let (groups, v4, rest) := readGroups room false rest
              (group :: groups, v4, rest)
          | none => ([], false, s)

/-- `Ipv4Addr::from_str`, as octets. -/
def parseIpv4 (s : Str) : Option Bytes :=
  match readIpv4 s with
  | some (octets, []) => some octets
  | _ => none

/-- `Ipv6Addr::from_str`, as octets. -/
def parseIpv6 (s : Str) : Option Bytes :=
  let (head, headV4, rest) := readGroups 8 true s
  if head.length = 8 then
    if rest = [] then some (head.flatMap u16ToBe) else none
  else if headV4 then none
  else
    match (readChar ':' rest).bind (readChar ':') with
    | none => none
    | some rest =>
        -- `::` stands for at least one group of zeros
        let (tail, _, rest) := readGroups (8 - (head.length + 1)) true rest
        if rest = [] then
          some ((head ++ List.replicate (8 - (head.length + tail.length)) 0 ++
            tail).flatMap u16ToBe)
        else none

theorem length_of_readIpv4 {s rest : Str} {octets : Bytes} (h : readIpv4 s = some (octets, rest)) :
    octets.length = 4 := by
  simp only [readIpv4, Option.bind_eq_bind, Option.bind_eq_some_iff, Option.pure_def,
    Option.some.injEq, Prod.mk.injEq] at h
  obtain ⟨-, -, -, -, -, -, -, -, rfl, -⟩ := h
  rfl

theorem length_of_parseIpv4 {s : Str} {octets : Bytes} (h : parseIpv4 s = some octets) :
    octets.length = 4 := by
  unfold parseIpv4 at h
  split at h
  · next hread =>
    obtain rfl := Option.some.inj h
    exact length_of_readIpv4 hread
  · cases h

theorem length_readGroups_le (room : Nat) (first : Bool) (s : Str) :
    (readGroups room first s).1.length ≤ room := by
  induction room generalizing first s with
  | zero => simp [readGroups]
  | succ room ih =>
    unfold readGroups
    simp only
    split
    · next h =>
      have hroom : room ≠ 0 := by
        rintro rfl
        simp at h
      simp only [List.length_cons, List.length_nil]
      omega
    · split
      · next rest _ =>
        have := ih false rest
        simp
        omega
      · simp

theorem length_of_parseIpv6 {s : Str} {octets : Bytes} (h : parseIpv6 s = some octets) :
    octets.length = 16 := by
  have hflat : ∀ l : List UInt16, (l.flatMap u16ToBe).length = 2 * l.length := by
    intro l
    induction l with
    | nil => rfl
    | cons x xs ih => simp [ih]; omega
  have hhead := length_readGroups_le 8 true s
  unfold parseIpv6 at h
  simp only at h
  split_ifs at h with hfull hrest hv4
  · obtain rfl := Option.some.inj h
    rw [hflat, hfull]
  · split at h
    · cases h
    · next rest _ =>
      split_ifs at h
      obtain rfl := Option.some.inj h
      have htail := length_readGroups_le (8 - ((readGroups 8 true s).1.length + 1)) true rest
      rw [hflat]
      simp only [List.length_append, List.length_replicate]
      omega

end Synvoid.Framework
