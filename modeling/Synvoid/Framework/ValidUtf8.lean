import Synvoid.Framework.RustStr

/-! # The front of a byte string that is UTF-8

    Where `String::from_utf8` fails, its error tells up to which byte the string is
    valid. `validText` is the text of that front: the longest text whose bytes the
    string begins with (`validText_spec`).

    An ASCII byte is a character of its own. So what is in front of one is decided
    without what is behind it: either all of it is text and the front goes on behind
    the byte (`validText_utf8_append`), or the front ends before it
    (`validText_append_of_invalid`).
-/

namespace Synvoid.Framework

/-- The part of a byte string up to `valid_up_to`, as a text. -/
def validText (bytes : Bytes) : Str :=
  ((List.range (bytes.length + 1)).reverse.findSome? fun n => fromUtf8 (bytes.take n)).getD []

/-! ## Section 1: The longest front -/

theorem prefix_of_utf8 {s t : Str} (h : utf8 s <+: utf8 t) : s <+: t := by
  obtain ⟨rest, hrest⟩ := h
  have ht := fromUtf8Lossy_utf8_append t []
  rw [List.append_nil, ← hrest, fromUtf8Lossy_utf8_append] at ht
  exact ⟨_, ht.trans (List.append_nil t)⟩

/-- The search goes from the longest front to the empty one. -/
theorem findSome?_fronts (bytes : Bytes) (n : Nat) :
    ∃ t, ((List.range (n + 1)).reverse.findSome? fun m => fromUtf8 (bytes.take m)) = some t ∧
      utf8 t <+: bytes ∧ ∀ s, utf8 s <+: bytes → (utf8 s).length ≤ n → utf8 s <+: utf8 t := by
  induction n with
  | zero =>
    refine ⟨[], rfl, List.nil_prefix, fun s _ hlength => ?_⟩
    rw [List.length_eq_zero_iff.mp (Nat.le_zero.mp hlength)]
    exact List.nil_prefix
  | succ n ih =>
    rw [List.range_succ, List.reverse_append, List.reverse_singleton, List.singleton_append,
      List.findSome?_cons]
    cases hfront : fromUtf8 (bytes.take (n + 1)) with
    | some t =>
      have ht := utf8_of_fromUtf8 hfront
      refine ⟨t, rfl, ht ▸ List.take_prefix _ _, fun s hs hlength => ?_⟩
      rw [ht]
      exact List.prefix_take_iff.mpr ⟨hs, hlength⟩
    | none =>
      obtain ⟨t, hfound, ht, hlongest⟩ := ih
      refine ⟨t, hfound, ht, fun s hs hlength => hlongest s hs ?_⟩
      -- a text of this length would have been found
      have hne : (utf8 s).length ≠ n + 1 := by
        intro heq
        rw [← heq, ← List.prefix_iff_eq_take.mp hs, fromUtf8_utf8] at hfront
        cases hfront
      omega

/-- **The text is the longest one** whose bytes the string begins with. -/
theorem validText_spec (bytes : Bytes) :
    utf8 (validText bytes) <+: bytes ∧ ∀ s, utf8 s <+: bytes → s <+: validText bytes := by
  obtain ⟨t, hfound, ht, hlongest⟩ := findSome?_fronts bytes bytes.length
  have heq : validText bytes = t := by
    unfold validText
    rw [hfound]
    rfl
  rw [heq]
  exact ⟨ht, fun s hs => prefix_of_utf8 (hlongest s hs hs.length_le)⟩

theorem validText_eq {bytes : Bytes} {t : Str} (h : utf8 t <+: bytes)
    (hlongest : ∀ s, utf8 s <+: bytes → s <+: t) : validText bytes = t := by
  obtain ⟨hvalid, hbest⟩ := validText_spec bytes
  exact (hlongest _ hvalid).eq_of_length_le (hbest t h).length_le

@[simp] theorem validText_nil : validText [] = [] := rfl

/-! ## Section 2: ASCII bytes -/

/-- A byte of a character is above ASCII, or the character is that byte. -/
theorem utf8EncodeChar_of_mem {b : UInt8} {c : Char} (h : b ∈ String.utf8EncodeChar c)
    (hascii : b.toNat < 0x80) : String.utf8EncodeChar c = [b] := by
  have hval : c.val.toNat < 1114112 := by
    have := c.valid
    simp only [UInt32.isValidChar, Nat.isValidChar] at this
    omega
  have hlarge : ∀ n, 0x80 ≤ n → n < 256 → b ≠ UInt8.ofNat n := by
    rintro n hle hlt rfl
    rw [UInt8.toNat_ofNat', Nat.mod_eq_of_lt hlt] at hascii
    omega
  unfold String.utf8EncodeChar at h ⊢
  simp only at h ⊢
  split_ifs at h ⊢ <;> simp only [List.mem_cons, List.not_mem_nil, or_false] at h
  · rw [h]
  · rcases h with h | h <;> exact absurd h (hlarge _ (by omega) (by omega))
  · rcases h with h | h | h <;> exact absurd h (hlarge _ (by omega) (by omega))
  · rcases h with h | h | h | h <;> exact absurd h (hlarge _ (by omega) (by omega))

/-- What stands in front of an ASCII byte of a text is a text. -/
theorem exists_utf8_of_append {s : Str} {front rest : Bytes} {b : UInt8} (hb : b.toNat < 0x80)
    (h : utf8 s = front ++ b :: rest) : ∃ t, front = utf8 t := by
  induction s generalizing front with
  | nil => simp at h
  | cons c s ih =>
    rw [utf8_cons] at h
    rcases List.append_eq_append_iff.mp h with ⟨more, rfl, hmore⟩ | ⟨more, hchar, hmore⟩
    · obtain ⟨t, rfl⟩ := ih hmore
      exact ⟨c :: t, (utf8_cons c t).symm⟩
    · cases more with
      | nil =>
        rw [List.append_nil] at hchar
        exact ⟨[c], by rw [utf8_cons, hchar, utf8_nil, List.append_nil]⟩
      | cons d more =>
        -- the byte would be within the character
        obtain ⟨rfl, -⟩ := List.cons.inj hmore
        have hmem : b ∈ String.utf8EncodeChar c := by
          rw [hchar]
          simp
        have hone := utf8EncodeChar_of_mem hmem hb
        rw [hone] at hchar
        have hlength := congrArg List.length hchar
        simp only [List.length_append, List.length_cons, List.length_nil] at hlength
        exact ⟨[], List.length_eq_zero_iff.mp (by omega)⟩

theorem validText_utf8_append (s : Str) (rest : Bytes) :
    validText (utf8 s ++ rest) = s ++ validText rest := by
  obtain ⟨hvalid, hbest⟩ := validText_spec rest
  refine validText_eq ?_ fun t ht => ?_
  · rw [utf8_append]
    exact (List.prefix_append_right_inj _).mpr hvalid
  · -- of two texts at the front, one begins with the other
    rcases List.prefix_or_prefix_of_prefix ht (List.prefix_append (utf8 s) rest) with hle | hle
    · exact (prefix_of_utf8 hle).trans (List.prefix_append _ _)
    · obtain ⟨more, rfl⟩ := prefix_of_utf8 hle
      rw [utf8_append, List.prefix_append_right_inj] at ht
      exact (List.prefix_append_right_inj _).mpr (hbest more ht)

theorem validText_utf8 (s : Str) : validText (utf8 s) = s := by
  have h := validText_utf8_append s []
  rwa [List.append_nil, validText_nil, List.append_nil] at h

/-- Where what stands in front of an ASCII byte is no text, the front ends in it. -/
theorem validText_append_of_invalid {front rest : Bytes} {b : UInt8} (hb : b.toNat < 0x80)
    (hinvalid : ∀ t, front ≠ utf8 t) : validText (front ++ b :: rest) = validText front := by
  obtain ⟨hvalid, hbest⟩ := validText_spec front
  refine validText_eq (hvalid.trans (List.prefix_append _ _)) fun s hs => hbest s ?_
  rcases List.prefix_or_prefix_of_prefix hs (List.prefix_append front (b :: rest)) with hle | hle
  · exact hle
  · obtain ⟨more, hmore⟩ := hle
    rw [← hmore, List.prefix_append_right_inj] at hs
    cases more with
    | nil =>
      rw [List.append_nil] at hmore
      exact absurd hmore (hinvalid s)
    | cons c more =>
      obtain ⟨rfl, -⟩ := List.cons_prefix_cons.mp hs
      obtain ⟨t, ht⟩ := exists_utf8_of_append hb hmore.symm
      exact absurd ht (hinvalid t)

end Synvoid.Framework
