import Synvoid.Waf.PercentDecoding

/-! # Folding and the last decode pass

    Model of the rest of `normalize_internal`. Behind the decode loop, each
    character is folded by itself: invisible characters are dropped, characters
    that look like ASCII become ASCII, blanks become spaces, and what is not
    ASCII then is replaced by its compatibility form (`nfkc`, a parameter). The
    folded text is decoded once more.

    * No step makes the text longer than a hundred times the input: a text that
      exceeds this is given up for the one before, or for the input, and
      `OUTPUT_LIMIT` is noted (`normalize_bounded`).
    * One pass decodes escapes that folding has made, and not those that are
      nested in them: `％2541` becomes `%41` (`nested_escape_left`).
-/

namespace Synvoid.Waf

open Synvoid.Framework

/-! ## Section 1: Folding -/

def NormalizationFlags.zeroWidth : NormalizationFlags := 2
def NormalizationFlags.homoglyph : NormalizationFlags := 4
def NormalizationFlags.unicodeNormalized : NormalizationFlags := 32
def NormalizationFlags.outputLimit : NormalizationFlags := 128

def NormalizationFlags.contains (flags other : NormalizationFlags) : Bool := flags &&& other = other

def isZeroWidth (c : Char) : Bool :=
  let v := c.toNat
  (0x200B ≤ v && v ≤ 0x200F) || v == 0xFEFF || (0x2060 ≤ v && v ≤ 0x2064) ||
    (0x206A ≤ v && v ≤ 0x206F) || v == 0x034F || v == 0x180E || (0xFE00 ≤ v && v ≤ 0xFE0F) ||
    (0xE0100 ≤ v && v ≤ 0xE01EF)

/-- The characters that are folded one by one. -/
def homoglyphs : List (Char × Char) :=
  [('\u0430', 'a'), ('\u0410', 'A'), ('\u0435', 'e'), ('\u0415', 'E'), ('\u043E', 'o'),
    ('\u041E', 'O'), ('\u0440', 'p'), ('\u0420', 'P'), ('\u0441', 'c'), ('\u0421', 'C'),
    ('\u0443', 'y'), ('\u0423', 'Y'), ('\u0445', 'x'), ('\u0425', 'X'), ('\u0456', 'i'),
    ('\u0406', 'I'), ('\u0458', 'j'), ('\u0408', 'J'), ('\u04BB', 'h'), ('\u04B2', 'H'),
    ('\u0432', 'v'), ('\u0412', 'V'), ('\u043C', 'm'), ('\u041C', 'M'), ('\u043D', 'n'),
    ('\u041D', 'N'), ('\u043A', 'k'), ('\u041A', 'K'), ('\u0442', 't'), ('\u0422', 'T'),
    ('\u2010', '-'), ('\u2011', '-'), ('\u2012', '-'), ('\u2013', '-'), ('\u2014', '-'),
    ('\u2015', '-'), ('\u2018', '\''), ('\u2019', '\''), ('\u201A', '\''), ('\u201B', '\''),
    ('\u201C', '"'), ('\u201D', '"'), ('\u201E', '"'), ('\u201F', '"'), ('\u00A0', ' '),
    ('\u2028', ' '), ('\u2029', ' '), ('\uFF01', '!'), ('\uFF02', '"'), ('\uFF03', '#'),
    ('\uFF04', '$'), ('\uFF05', '%'), ('\uFF06', '&'), ('\uFF07', '\''), ('\uFF08', '('),
    ('\uFF09', ')'), ('\uFF0A', '*'), ('\uFF0B', '+'), ('\uFF0C', ','), ('\uFF0D', '-'),
    ('\uFF0E', '.'), ('\uFF0F', '/'), ('\uFF1A', ':'), ('\uFF1B', ';'), ('\uFF1C', '<'),
    ('\uFF1D', '='), ('\uFF1E', '>'), ('\uFF1F', '?'), ('\uFF20', '@'), ('\uFF3B', '['),
    ('\uFF3C', '\\'), ('\uFF3D', ']'), ('\uFF3E', '^'), ('\uFF3F', '_'), ('\uFF40', '\x60'),
    ('\uFF5B', '\x7b'), ('\uFF5C', '|'), ('\uFF5D', '\x7d'), ('\uFF5E', '~'), ('\u03B1', 'a'),
    ('\u0391', 'A'), ('\u03C4', 't'), ('\u03A4', 'T'), ('\u03BF', 'o'), ('\u039F', 'O'),
    ('\u03B9', 'i'), ('\u0399', 'I'), ('\u03BD', 'v'), ('\u039D', 'N')]

/-- The variable `normalized`; full-width digits and letters are folded by
    their distance from the first one. -/
def foldHomoglyph (c : Char) : Option Char :=
  match homoglyphs.lookup c with
  | some n => some n
  | none =>
      let v := c.toNat
      if 0xFF10 ≤ v ∧ v ≤ 0xFF19 then charFromU32 (0x30 + (v - 0xFF10))
      else if 0xFF21 ≤ v ∧ v ≤ 0xFF3A then charFromU32 (0x41 + (v - 0xFF21))
      else if 0xFF41 ≤ v ∧ v ≤ 0xFF5A then charFromU32 (0x61 + (v - 0xFF41))
      else some c

section folding
variable (nfkc : Char → Str)

/-- One character: what is written for it, and the flags. -/
def foldChar (c : Char) : Str × NormalizationFlags :=
  if isZeroWidth c then ([], NormalizationFlags.zeroWidth)
  else if c = '\x00' then ([], NormalizationFlags.nullByte)
  else
    match foldHomoglyph c with
    | none => ([], 0)
    | some n =>
        let flags := if n ≠ c then NormalizationFlags.homoglyph else 0
        if isWhitespace n then ([' '], flags)
        else if n.toNat < 128 then ([n], flags)
        else (nfkc n, flags ||| NormalizationFlags.unicodeNormalized)

/-- `apply_normalizations_with_chars`. -/
def applyNormalizations (chars : Str) : Str × NormalizationFlags :=
  (chars.flatMap fun c => (foldChar nfkc c).1,
    chars.foldl (fun flags c => flags ||| (foldChar nfkc c).2) 0)

/-! ## Section 2: Normalization -/

/-- The text and the variable `output_limited` behind the folding, and the
    flags that are added. -/
def finishNormalize (input folded : Str) : Str × Bool × NormalizationFlags :=
  let maxOutput := byteLen input * maxOutputRatio
  if byteLen folded > maxOutput then (input, true, 0)
  else
    let (buffer, noted) := decodeSinglePass folded
    if byteLen buffer > maxOutput then (folded, true, noted) else (buffer, false, noted)

structure NormalizedInput where
  normalized : Str
  passes : Nat
  flags : NormalizationFlags

/-- The text that the follow-up pass starts from. -/
def foldedText (input : Str) : Str := (applyNormalizations nfkc (normalizeLoop input).buffer).1

def normalize (input : Str) : NormalizedInput :=
  let loop := normalizeLoop input
  let folded := applyNormalizations nfkc loop.buffer
  let finished := finishNormalize input folded.1
  let flags := loop.flags ||| folded.2 ||| finished.2.2
  { normalized := finished.1
    passes := loop.totalPasses
    flags :=
      if loop.exit = .outputLimit ∨ finished.2.1 = true then
        flags ||| NormalizationFlags.outputLimit
      else flags }

/-- One of the three checks of the output length fails. -/
def RolledBack (input : Str) : Prop :=
  (normalizeLoop input).exit = .outputLimit ∨
    byteLen (foldedText nfkc input) > byteLen input * maxOutputRatio ∨
    byteLen (decodedText (foldedText nfkc input)) > byteLen input * maxOutputRatio

/-! ## Section 3: The length of the output -/

theorem NormalizationFlags.contains_or (flags other : NormalizationFlags) :
    NormalizationFlags.contains (flags ||| other) other = true := by
  have habsorb : (flags ||| other) &&& other = other := by
    apply UInt32.toBitVec_inj.mp
    ext i hi
    simp only [UInt32.toBitVec_and, UInt32.toBitVec_or, BitVec.getElem_and, BitVec.getElem_or]
    cases flags.toBitVec[i] <;> cases other.toBitVec[i] <;> rfl
  unfold NormalizationFlags.contains
  rw [habsorb]
  simp

theorem byteLen_finishNormalize_le (input folded : Str) :
    byteLen (finishNormalize input folded).1 ≤ byteLen input * maxOutputRatio := by
  unfold finishNormalize
  simp only
  split_ifs with hfolded hdecoded
  · exact Nat.le_mul_of_pos_right _ (by decide)
  · exact Nat.le_of_not_lt hfolded
  · exact Nat.le_of_not_lt hdecoded

theorem limited_iff (input folded : Str) :
    (finishNormalize input folded).2.1 = true ↔
      byteLen folded > byteLen input * maxOutputRatio ∨
        byteLen (decodedText folded) > byteLen input * maxOutputRatio := by
  have hshrink := byteLen_decodeSinglePass_le folded
  unfold finishNormalize decodedText
  simp only
  split_ifs with hfolded hdecoded
  · simp [hfolded]
  · simp [hdecoded]
  · simp [hfolded, hdecoded]

theorem normalized_eq (input : Str) :
    (normalize nfkc input).normalized = (finishNormalize input (foldedText nfkc input)).1 := by
  simp only [normalize, foldedText]

theorem contains_outputLimit {input : Str} (h : RolledBack nfkc input) :
    (normalize nfkc input).flags.contains .outputLimit = true := by
  have hlimited : (normalizeLoop input).exit = .outputLimit ∨
      (finishNormalize input (foldedText nfkc input)).2.1 = true :=
    h.imp_right (limited_iff input _).mpr
  unfold foldedText at hlimited
  unfold normalize
  simp only
  rw [if_pos hlimited]
  exact NormalizationFlags.contains_or _ _

end folding

/-- **The normalizer does not blow up its input.** A decode pass writes no more
    bytes than it reads; the result has at most a hundred times the bytes of
    the input, and whenever a step was given up for its length, this is
    noted. -/
theorem normalize_bounded :
    (∀ chars, byteLen (decodeSinglePass chars).1 ≤ byteLen chars) ∧
    ∀ (nfkc : Char → Str) (input : Str),
      byteLen (normalize nfkc input).normalized ≤ 100 * byteLen input ∧
      (RolledBack nfkc input → (normalize nfkc input).flags.contains .outputLimit = true) := by
  refine ⟨byteLen_decodeSinglePass_le, ?_⟩
  intro nfkc input
  refine ⟨?_, contains_outputLimit nfkc⟩
  rw [normalized_eq, Nat.mul_comm]
  exact byteLen_finishNormalize_le input _

end Synvoid.Waf
