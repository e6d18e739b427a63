import Synvoid.Framework.Rewrite
import Synvoid.Framework.RustStr

/-! # The decoder of the input normalizer

    Model of `attack_detection/normalizer.rs`: a pass over the text decodes
    percent escapes, backslash escapes and HTML entities
    (`decodeSinglePass`), and the loop of `normalize_internal` repeats it until
    a pass changes nothing, ten passes are done or the text has grown too much.

    A pass is a `rewrite` by `decodeStep`. `decodeStep_cases` says all that a
    step can do; that passes never grow follows from it.
-/

namespace Synvoid.Waf

open Synvoid.Framework

/-! ## Section 1: Escapes -/

abbrev NormalizationFlags := UInt32

def NormalizationFlags.nullByte : NormalizationFlags := 1
def NormalizationFlags.doubleEncoding : NormalizationFlags := 8
def NormalizationFlags.overlong : NormalizationFlags := 64

abbrev DecodePiece := Piece Char NormalizationFlags

def hexCharsToU8 : Str → Option UInt8
  | high :: low :: _ => do
      let high ← hexDigit high
      let low ← hexDigit low
      return UInt8.ofNat (high * 16 + low)
  | _ => none

def hexCharsToU32 (chars : Str) : Option Nat :=
  if chars.length > 8 then none
  else chars.foldlM (fun result c => (hexDigit c).map (result * 16 + ·)) 0

/-- The code point of `%uXXXX` or `\uXXXX`. -/
def unicodeEscape (rest : Str) : Option Nat :=
  if 4 ≤ rest.length then hexCharsToU32 (rest.take 4) else none

/-- A character in place of `taken` characters. -/
def emitChar (ch : Char) (taken : Nat) : DecodePiece := ⟨[ch], taken, 0⟩

/-- A null byte is dropped and noted. -/
def dropNull (taken : Nat) : DecodePiece := ⟨[], taken, NormalizationFlags.nullByte⟩

def emitByte (byte : UInt8) (taken : Nat) : DecodePiece :=
  if byte = 0 then dropNull taken else emitChar (Char.ofNat byte.toNat) taken

/-- A code point that is no character is dropped. -/
def emitCodePoint (codePoint taken : Nat) : DecodePiece :=
  if codePoint = 0 then dropNull taken
  else
    match charFromU32 codePoint with
    | some ch => emitChar ch taken
    | none => ⟨[], taken, 0⟩

/-! ## Section 2: Percent escapes -/

/-- The length of a UTF-8 sequence by its first byte. -/
def expectedBytes (firstByte : UInt8) : Option Nat :=
  if firstByte &&& 0xE0 = 0xC0 then some 2
  else if firstByte &&& 0xF0 = 0xE0 then some 3
  else if firstByte &&& 0xF8 = 0xF0 then some 4
  else none

/-- Percent-encoded continuation bytes. -/
def continuationBytes : Nat → Str → Option (List UInt8)
  | 0, _ => some []
  | n + 1, '%' :: high :: low :: rest => do
      let byte ← hexCharsToU8 [high, low]
      if byte &&& 0xC0 ≠ 0x80 then none
      else
        let bytes ← continuationBytes n rest
        return byte :: bytes
  | _, _ => none

def sequenceCodePoint (firstByte : UInt8) : List UInt8 → Nat
  | [b₁] => ((firstByte &&& 0x1F).toNat <<< 6) ||| (b₁ &&& 0x3F).toNat
  | [b₁, b₂] =>
      ((firstByte &&& 0x0F).toNat <<< 12) ||| ((b₁ &&& 0x3F).toNat <<< 6) ||| (b₂ &&& 0x3F).toNat
  | [b₁, b₂, b₃] =>
      ((firstByte &&& 0x07).toNat <<< 18) ||| ((b₁ &&& 0x3F).toNat <<< 12) |||
        ((b₂ &&& 0x3F).toNat <<< 6) ||| (b₃ &&& 0x3F).toNat
  | _ => 0

def isOverlong (codePoint : Nat) : Nat → Bool
  | 2 => codePoint < 0x80
  | 3 => codePoint < 0x800
  | 4 => codePoint < 0x10000
  | _ => false

/-- The character of a multi-byte sequence that starts with `first_byte` and
    goes on in `rest`, and how many characters it takes with the first escape. -/
def decodeOverlongSequence (rest : Str) (firstByte : UInt8) :
    Option Char × Nat × NormalizationFlags :=
  match expectedBytes firstByte with
  | none => (none, 3, 0)
  | some expected =>
      match continuationBytes (expected - 1) rest with
      | none => (none, 3, 0)
      | some bytes =>
          let codePoint := sequenceCodePoint firstByte bytes
          (charFromU32 codePoint, 3 * expected,
            if isOverlong codePoint expected then NormalizationFlags.overlong else 0)

/-- The characters behind a `%`. -/
def decodePercent (rest : Str) : DecodePiece :=
  let codePoint := if rest.head? = some 'u' then unicodeEscape rest.tail else none
  match codePoint with
  | some codePoint => emitCodePoint codePoint 6
  | none =>
      match hexCharsToU8 (rest.take 2) with
      | some byte =>
          if 0xC0 ≤ byte ∧ byte ≤ 0xFD then
            let (decodedChar, consumed, flags) := decodeOverlongSequence (rest.drop 2) byte
            ⟨[decodedChar.getD (Char.ofNat byte.toNat)], consumed, flags⟩
          else emitByte byte 3
      | none => emitChar '%' 1

/-! ## Section 3: Backslash escapes -/

/-- The octal number behind a backslash: up to three digits. -/
def octalDigits (rest : Str) : Str := (rest.take 3).takeWhile fun c => '0' ≤ c ∧ c ≤ '7'

def octalValue (octal : Str) : Nat := octal.foldl (fun n c => n * 8 + (c.toNat - 48)) 0

/-- An octal escape; a number above 255 is not decoded. -/
def decodeOctal (octal : Str) : DecodePiece :=
  if octalValue octal ≤ 255 then emitByte (UInt8.ofNat (octalValue octal)) (1 + octal.length)
  else emitChar '\\' 1

/-- The characters behind a backslash. -/
def decodeBackslash : Str → DecodePiece
  | [] => emitChar '\\' 1
  | c :: rest =>
      if c = 'x' ∨ c = 'X' then
        match hexCharsToU8 (rest.take 2) with
        | some byte => emitByte byte 4
        -- the letter is written in lower case, also for `X`
        | none => ⟨['\\', 'x'], 2, 0⟩
      else if c = 'u' ∨ c = 'U' then
        match unicodeEscape rest with
        | some codePoint => emitCodePoint codePoint 6
        | none => ⟨['\\', 'u'], 2, 0⟩
      else if c = 'n' then emitChar '\n' 2
      else if c = 'r' then emitChar '\r' 2
      else if c = 't' then emitChar '\t' 2
      else if '0' ≤ c ∧ c ≤ '7' then decodeOctal (octalDigits (c :: rest))
      else emitChar '\\' 1

/-! ## Section 4: HTML entities -/

def htmlEntities : List (String × Char) :=
  [("lt", '<'), ("gt", '>'), ("amp", '&'), ("quot", '"'), ("apos", '\''), ("nbsp", '\u00a0'),
    ("copy", '\u00a9'), ("reg", '\u00ae'), ("trade", '\u2122'), ("hellip", '\u2026'),
    ("ndash", '\u2013'), ("mdash", '\u2014'), ("lsquo", '\u2018'), ("rsquo", '\u2019'),
    ("ldquo", '\u201c'), ("rdquo", '\u201d'), ("bullet", '\u2022'), ("prime", '\u2032'),
    ("Prime", '\u2033'), ("oline", '\u203e'), ("frasl", '\u2044'), ("euro", '\u20ac'),
    ("prod", '\u220f'), ("sum", '\u2211'), ("radic", '\u221a'), ("infin", '\u221e'),
    ("approx", '\u2248'), ("ne", '\u2260'), ("le", '\u2264'), ("ge", '\u2265'),
    ("times", '\u00d7'), ("divide", '\u00f7'), ("circ", '\u02c6'), ("tilde", '\u02dc'),
    ("colon", ':'), ("Tab", '\t'), ("NewLine", '\n')]

def decodeHtmlEntitySimple (entity : Str) : Option Char :=
  match entity with
  | '#' :: 'x' :: hex => (parseHexU32 hex).bind charFromU32
  | '#' :: 'X' :: hex => (parseHexU32 hex).bind charFromU32
  | '#' :: rest => (parseUnsigned 4294967295 rest).bind charFromU32
  | _ => htmlEntities.lookup (String.ofList entity)

/-- Looks for a semicolon in the next `n` characters: the characters before
    it, and whether it was found. -/
def scanEntity : Nat → Str → Str × Bool
  | 0, _ => ([], false)
  | _ + 1, [] => ([], false)
  | n + 1, c :: rest =>
      if c = ';' then ([], true)
      else (c :: (scanEntity n rest).1, (scanEntity n rest).2)

/-- What the scan for an entity goes over. -/
def scanned (rest : Str) : Str :=
  (scanEntity 10 rest).1 ++ if (scanEntity 10 rest).2 then [';'] else []

/-- The characters behind an `&`. Without an entity, all characters looked at
    are copied. -/
def decodeAmpersand (rest : Str) : DecodePiece :=
  let (entityChars, foundSemicolon) := scanEntity 10 rest
  let taken := 1 + (scanned rest).length
  match if foundSemicolon then decodeHtmlEntitySimple entityChars else none with
  | some ch => if ch = '\x00' then dropNull taken else emitChar ch taken
  -- the source continues behind the scan (`i = j`), not behind the `&`
  | none => ⟨'&' :: scanned rest, taken, 0⟩

/-! ## Section 5: The pass and the loop -/

def decodeStep (c : Char) (rest : Str) : DecodePiece :=
  if c = '%' then decodePercent rest
  else if c = '+' then emitChar ' ' 1
  else if c = '\\' then decodeBackslash rest
  else if c = '&' then decodeAmpersand rest
  else if c = '\x00' then dropNull 1
  else emitChar c 1

/-- `decode_single_pass_with_chars`: the decoded text and the flags it sets. -/
def decodeSinglePass (chars : Str) : Str × NormalizationFlags :=
  let ps := pieces decodeStep chars.length chars
  (ps.flatMap Piece.out, ps.foldl (fun flags p => flags ||| p.note) 0)

def maxOutputRatio : Nat := 100

def maxDecodePasses : Nat := 10

/-- Why the loop stopped. -/
inductive LoopExit where
  | fixpoint
  | passCap
  | outputLimit
  deriving DecidableEq, Repr

structure LoopResult where
  buffer : Str
  totalPasses : Nat
  flags : NormalizationFlags
  exit : LoopExit

def decodeLoop (maxOutput : Nat) : Nat → Str → Nat → NormalizationFlags → LoopResult
  | 0, buffer, totalPasses, flags => ⟨buffer, totalPasses, flags, .passCap⟩
  | passes + 1, prevContent, totalPasses, flags =>
      let (buffer, noted) := decodeSinglePass prevContent
      let flags := flags ||| noted
      -- the last pass does not count, and its text is the one before it
      if byteLen buffer = byteLen prevContent ∧ buffer = prevContent then
        ⟨buffer, totalPasses, flags, .fixpoint⟩
      else if byteLen buffer > maxOutput then
        -- the text before the pass that grew too much is kept
        ⟨prevContent, totalPasses + 1, flags, .outputLimit⟩
      else decodeLoop maxOutput passes buffer (totalPasses + 1) flags

/-- The decode loop of `normalize_internal`. (The limit saturates in the source;
    no text is that long.) -/
def normalizeLoop (input : Str) : LoopResult :=
  let result := decodeLoop (byteLen input * maxOutputRatio) maxDecodePasses input 0 0
  if result.totalPasses > 1 then
    { result with flags := result.flags ||| NormalizationFlags.doubleEncoding }
  else result

/-! ## Section 6: What a step does -/

/-- Several characters become at most one, or a null character none. -/
structure Decoded (rest : Str) (p : DecodePiece) : Prop where
  le : p.taken ≤ rest.length + 1
  shorter : p.out.length < p.taken
  bytes : byteLen p.out ≤ p.taken

/-- What a step at `c :: rest` does: it decodes an escape, or writes a character
    for one character, or copies the two characters of a broken `\x` or `\u`, or
    copies what it scanned for an entity. -/
inductive StepCase (c : Char) (rest : Str) : DecodePiece → Prop where
  | decoded {p : DecodePiece} (h : Decoded rest p) : StepCase c rest p
  | single (ch : Char) (hsize : ch.utf8Size ≤ c.utf8Size)
      (hbroken : c = '%' → hexCharsToU8 (rest.take 2) = none) : StepCase c rest (emitChar ch 1)
  | backslash (x y : Char) (hhead : rest.head? = some x) (hx : x ∈ ['x', 'X', 'u', 'U'])
      (hy : y.utf8Size = 1) : StepCase c rest ⟨['\\', y], 2, 0⟩
  | scanned (hc : c = '&') : StepCase c rest ⟨'&' :: scanned rest, 1 + (scanned rest).length, 0⟩

theorem utf8Size_byte_le (byte : UInt8) : (Char.ofNat byte.toNat).utf8Size ≤ 2 := by
  have hlt := byte.toNat_lt
  have hval : (Char.ofNat byte.toNat).val.toNat = byte.toNat := by
    unfold Char.ofNat
    rw [dif_pos (Or.inl (by omega))]
    rfl
  have hle : (Char.ofNat byte.toNat).val ≤ 0x7ff :=
    UInt32.le_iff_toNat_le.mpr (by rw [hval]; exact Nat.le_trans (Nat.le_of_lt hlt) (by decide))
  -- three bytes start at 0x800
  rcases (Char.ofNat byte.toNat).utf8Size_eq with h | h | h | h
  · omega
  · omega
  · exact absurd hle (UInt32.not_le.mpr (Char.utf8Size_eq_three_iff.mp h).1)
  · have hlarge := UInt32.lt_iff_toNat_lt.mp (Char.utf8Size_eq_four_iff.mp h)
    exact absurd hlarge (by rw [hval]; simp; omega)

theorem decoded_emitChar {rest : Str} {ch : Char} {taken : Nat} (hle : taken ≤ rest.length + 1)
    (htwo : 2 ≤ taken) (hsize : ch.utf8Size ≤ taken) : Decoded rest (emitChar ch taken) := by
  refine ⟨hle, ?_, ?_⟩
  · simp only [emitChar, List.length_singleton]
    omega
  · simpa [emitChar, byteLen_cons] using hsize

theorem decoded_dropNull {rest : Str} {taken : Nat} (hle : taken ≤ rest.length + 1)
    (hone : 1 ≤ taken) : Decoded rest (dropNull taken) :=
  ⟨hle, by simp only [dropNull, List.length_nil]; omega, by simp [dropNull]⟩

theorem decoded_emitByte {rest : Str} (byte : UInt8) {taken : Nat}
    (hle : taken ≤ rest.length + 1) (htwo : 2 ≤ taken) : Decoded rest (emitByte byte taken) := by
  unfold emitByte
  split_ifs
  · exact decoded_dropNull hle (by omega)
  · exact decoded_emitChar hle htwo (Nat.le_trans (utf8Size_byte_le byte) htwo)

theorem decoded_emitCodePoint {rest : Str} (codePoint : Nat) {taken : Nat}
    (hle : taken ≤ rest.length + 1) (hfour : 4 ≤ taken) :
    Decoded rest (emitCodePoint codePoint taken) := by
  unfold emitCodePoint
  split_ifs
  · exact decoded_dropNull hle (by omega)
  · split
    · next ch _ => exact decoded_emitChar hle (by omega) (Nat.le_trans ch.utf8Size_le_four hfour)
    · exact ⟨hle, by simp only [List.length_nil]; omega, by simp⟩

/-! ### Percent escapes -/

theorem four_le_length_of_unicodeEscape {rest : Str} {codePoint : Nat}
    (h : unicodeEscape rest = some codePoint) : 4 ≤ rest.length := by
  unfold unicodeEscape at h
  split_ifs at h with hlen
  exact hlen

theorem two_le_length_of_hexCharsToU8 {rest : Str} {byte : UInt8}
    (h : hexCharsToU8 (rest.take 2) = some byte) : 2 ≤ rest.length := by
  match rest with
  | [] => cases h
  | [_] => cases h
  | _ :: _ :: _ => simp

theorem length_of_continuationBytes {n : Nat} {rest : Str} {bytes : List UInt8}
    (h : continuationBytes n rest = some bytes) : 3 * n ≤ rest.length := by
  induction n generalizing rest bytes with
  | zero => omega
  | succ n ih =>
    unfold continuationBytes at h
    split at h
    · omega
    · next _ high low rest hn =>
      obtain rfl := Nat.succ.inj hn
      simp only [Option.bind_eq_bind, Option.bind_eq_some_iff] at h
      obtain ⟨byte, -, h⟩ := h
      split_ifs at h
      obtain ⟨tail, htail, -⟩ := Option.bind_eq_some_iff.mp h
      have := ih htail
      simp only [List.length_cons]
      omega
    · cases h

theorem expectedBytes_bounds {firstByte : UInt8} {n : Nat} (h : expectedBytes firstByte = some n) :
    2 ≤ n ∧ n ≤ 4 := by
  unfold expectedBytes at h
  split_ifs at h <;> obtain rfl := Option.some.inj h <;> decide

/-- Either only the first escape is taken, or a sequence of two to four. -/
theorem decodeOverlongSequence_cases (rest : Str) (firstByte : UInt8) :
    decodeOverlongSequence rest firstByte = (none, 3, 0) ∨
      6 ≤ (decodeOverlongSequence rest firstByte).2.1 ∧
      (decodeOverlongSequence rest firstByte).2.1 ≤ rest.length + 3 := by
  unfold decodeOverlongSequence
  split
  · exact Or.inl rfl
  · next expected hexpected =>
    have hbounds := expectedBytes_bounds hexpected
    split
    · exact Or.inl rfl
    · next bytes hbytes =>
      have hlen := length_of_continuationBytes hbytes
      exact Or.inr ⟨by simp only; omega, by simp only; omega⟩

theorem stepCase_decodePercent (rest : Str) : StepCase '%' rest (decodePercent rest) := by
  unfold decodePercent
  simp only
  split
  · next codePoint hcode =>
    split_ifs at hcode
    have hlen := four_le_length_of_unicodeEscape hcode
    rw [List.length_tail] at hlen
    exact .decoded (decoded_emitCodePoint codePoint (by omega) (by decide))
  · split
    · next byte hbyte =>
      have hlen := two_le_length_of_hexCharsToU8 hbyte
      split_ifs
      · -- a lead byte: alone it is taken as a character of its own
        have hcases := decodeOverlongSequence_cases (rest.drop 2) byte
        generalize decodeOverlongSequence (rest.drop 2) byte = sequence at hcases ⊢
        obtain ⟨decodedChar, consumed, flags⟩ := sequence
        simp only [List.length_drop, Prod.mk.injEq] at hcases ⊢
        refine .decoded ?_
        rcases hcases with ⟨rfl, rfl, rfl⟩ | ⟨hge, hle⟩
        · exact decoded_emitChar (by omega) (by decide)
            (Nat.le_trans (utf8Size_byte_le byte) (by decide))
        · refine ⟨by simp only; omega, by simp only [List.length_singleton]; omega, ?_⟩
          simp only [byteLen_cons, byteLen_nil]
          exact Nat.le_trans (Char.utf8Size_le_four _) (by omega)
      · exact .decoded (decoded_emitByte byte (by omega) (by decide))
    · next hbroken => exact .single '%' (Nat.le_refl _) fun _ => hbroken

/-! ### Backslash escapes -/

/-- The first digit is octal, so at least one is taken. -/
theorem stepCase_decodeOctal {c : Char} (rest : Str) (hdigit : '0' ≤ c ∧ c ≤ '7') :
    StepCase '\\' (c :: rest) (decodeOctal (octalDigits (c :: rest))) := by
  have hfirst : octalDigits (c :: rest) =
      c :: (rest.take 2).takeWhile fun c => '0' ≤ c ∧ c ≤ '7' := by
    simp [octalDigits, hdigit]
  have hlen : ((rest.take 2).takeWhile fun c => '0' ≤ c ∧ c ≤ '7').length ≤ rest.length :=
    Nat.le_trans (List.takeWhile_sublist _).length_le (List.take_sublist _ _).length_le
  unfold decodeOctal
  split_ifs
  · refine .decoded (decoded_emitByte _ ?_ ?_)
    · rw [hfirst]
      simp only [List.length_cons]
      omega
    · rw [hfirst]
      simp only [List.length_cons]
      omega
  · exact .single '\\' (Nat.le_refl _) fun h => absurd h (by decide)

theorem stepCase_decodeBackslash (rest : Str) : StepCase '\\' rest (decodeBackslash rest) := by
  have halone : StepCase '\\' rest (emitChar '\\' 1) :=
    .single '\\' (Nat.le_refl _) fun h => absurd h (by decide)
  have hcontrol : ∀ ch : Char, ch.utf8Size = 1 → 1 ≤ rest.length →
      StepCase '\\' rest (emitChar ch 2) :=
    fun ch hsize hlen => .decoded (decoded_emitChar (by omega) (by decide) (by omega))
  cases rest with
  | nil => exact halone
  | cons c rest =>
    have hpos : 1 ≤ (c :: rest).length := by simp
    simp only [decodeBackslash]
    split_ifs with hx hu hn hr ht hdigit
    · split
      · next byte hbyte =>
        have hlen := two_le_length_of_hexCharsToU8 hbyte
        exact .decoded (decoded_emitByte byte (by simp only [List.length_cons]; omega) (by decide))
      · exact .backslash c 'x' rfl (by rcases hx with rfl | rfl <;> simp) (by decide)
    · split
      · next codePoint hcode =>
        have hlen := four_le_length_of_unicodeEscape hcode
        exact .decoded (decoded_emitCodePoint codePoint (by simp only [List.length_cons]; omega)
          (by decide))
      · exact .backslash c 'u' rfl (by rcases hu with rfl | rfl <;> simp) (by decide)
    · exact hcontrol '\n' (by decide) hpos
    · exact hcontrol '\r' (by decide) hpos
    · exact hcontrol '\t' (by decide) hpos
    · exact stepCase_decodeOctal rest hdigit
    · exact halone

/-! ### Entities -/

/-- The scan goes over a prefix of at most `n` characters, with no semicolon
    but the last. -/
theorem scanEntity_spec (n : Nat) (rest : Str) :
    ((scanEntity n rest).1 ++ if (scanEntity n rest).2 then [';'] else []) <+: rest ∧
      ';' ∉ (scanEntity n rest).1 ∧ (scanEntity n rest).1.length ≤ n := by
  induction n generalizing rest with
  | zero => simp [scanEntity]
  | succ n ih =>
    cases rest with
    | nil => simp [scanEntity]
    | cons c rest =>
      obtain ⟨hpre, hnot, hlen⟩ := ih rest
      unfold scanEntity
      by_cases hc : c = ';'
      · simp [hc]
      · rw [if_neg hc]
        refine ⟨?_, ?_, ?_⟩
        · rw [List.cons_append]
          exact List.cons_prefix_cons.mpr ⟨rfl, hpre⟩
        · simp [Ne.symm hc, hnot]
        · simp only [List.length_cons]
          omega

theorem scanned_prefix_rest (rest : Str) : scanned rest <+: rest := (scanEntity_spec 10 rest).1

theorem two_le_length_of_htmlEntities {entity : Str} {ch : Char}
    (h : htmlEntities.lookup (String.ofList entity) = some ch) : 2 ≤ entity.length := by
  have hall : ∀ e ∈ htmlEntities, 2 ≤ e.1.length := by decide
  obtain ⟨l₁, l₂, hsplit, -⟩ := List.lookup_eq_some_iff.mp h
  simpa using hall (String.ofList entity, ch) (by rw [hsplit]; simp)

/-- Entities have at least two characters. -/
theorem two_le_length_of_entity {entity : Str} {ch : Char}
    (h : decodeHtmlEntitySimple entity = some ch) : 2 ≤ entity.length := by
  unfold decodeHtmlEntitySimple at h
  split at h
  · simp
  · simp
  · next rest _ _ =>
    obtain ⟨code, hcode, -⟩ := Option.bind_eq_some_iff.mp h
    have := List.length_pos_iff.mpr (parseUnsigned_ne_nil hcode)
    simp only [List.length_cons]
    omega
  · exact two_le_length_of_htmlEntities h

theorem stepCase_decodeAmpersand (rest : Str) : StepCase '&' rest (decodeAmpersand rest) := by
  have hle := (scanned_prefix_rest rest).length_le
  unfold decodeAmpersand
  simp only
  split
  · next ch hch =>
    -- an entity has two characters or more, so with `&` and `;` four are taken
    split_ifs at hch with hfound
    have htwo := two_le_length_of_entity hch
    have hlen : (scanned rest).length = (scanEntity 10 rest).1.length + 1 := by
      simp [scanned, hfound]
    split_ifs
    · exact .decoded (decoded_dropNull (by omega) (by omega))
    · exact .decoded (decoded_emitChar (by omega) (by omega)
        (Nat.le_trans ch.utf8Size_le_four (by omega)))
  · exact .scanned rfl

/-! ### All steps -/

theorem stepCase_decodeStep (c : Char) (rest : Str) : StepCase c rest (decodeStep c rest) := by
  unfold decodeStep
  split_ifs with hpercent hplus hbackslash hamp hnull
  · exact hpercent ▸ stepCase_decodePercent rest
  · exact .single ' ' (by rw [hplus]; decide) fun h => absurd h hpercent
  · exact hbackslash ▸ stepCase_decodeBackslash rest
  · exact hamp ▸ stepCase_decodeAmpersand rest
  · exact .decoded (decoded_dropNull (by omega) (by decide))
  · exact .single c (Nat.le_refl _) fun h => absurd h hpercent

section

variable {c : Char} {rest : Str} {p : DecodePiece}

theorem StepCase.taken_pos (h : StepCase c rest p) : 1 ≤ p.taken := by
  cases h with
  | decoded h => have := h.shorter; omega
  | single => exact Nat.le_refl _
  | backslash => exact Nat.le_succ 1
  | scanned => exact Nat.le_add_right _ _

theorem StepCase.taken_le (h : StepCase c rest p) : p.taken ≤ rest.length + 1 := by
  cases h with
  | decoded h => exact h.le
  | single => simp [emitChar]
  | backslash x y hhead =>
    cases rest with
    | nil => cases hhead
    | cons => simp
  | scanned =>
    have := (scanned_prefix_rest rest).length_le
    simp only
    omega

theorem StepCase.length_out_le (h : StepCase c rest p) : p.out.length ≤ p.taken := by
  cases h with
  | decoded h => exact Nat.le_of_lt h.shorter
  | single => exact Nat.le_refl _
  | backslash => exact Nat.le_refl _
  | scanned => simp only [List.length_cons]; omega

theorem StepCase.byteLen_out_le (h : StepCase c rest p) :
    byteLen p.out ≤ byteLen ((c :: rest).take p.taken) := by
  have htaken := length_le_byteLen ((c :: rest).take p.taken)
  rw [List.length_take_of_le (by simpa using h.taken_le)] at htaken
  cases h with
  | decoded h => exact Nat.le_trans h.bytes htaken
  | single ch hsize => simpa [emitChar, byteLen_cons] using hsize
  | backslash x y hhead hx hy =>
    -- `\X` becomes `\x`, which has the same length
    have hout : byteLen ['\\', y] = 2 := by
      rw [byteLen_cons, byteLen_cons, hy]
      rfl
    exact hout ▸ htaken
  | scanned hc =>
    rw [hc, Nat.add_comm, List.take_succ_cons,
      ← List.prefix_iff_eq_take.mp (scanned_prefix_rest rest)]

end

theorem advances_decodeStep : Advances decodeStep :=
  ⟨fun c rest => (stepCase_decodeStep c rest).taken_pos,
    fun c rest => (stepCase_decodeStep c rest).taken_le⟩

/-- **A pass never grows**, in bytes. -/
theorem byteLen_decodeSinglePass_le (chars : Str) :
    byteLen (decodeSinglePass chars).1 ≤ byteLen chars :=
  measure_rewrite_le advances_decodeStep byteLen_append
    (fun c rest => (stepCase_decodeStep c rest).byteLen_out_le) chars

end Synvoid.Waf
