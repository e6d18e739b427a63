import Synvoid.Mesh.RequestHead
import Synvoid.Mesh.ResponseSequence

/-! # How strict the readers of heads are

    A head is strict if its lines end in CRLF and hold no other line break, every
    line behind the first has a token and a colon in front, lengths are digits, and
    there is not both a length and a transfer coding.

    The readers split the head with functions for texts, so they also take lines
    that end in a line feed, blanks around a name, names that are no tokens and
    lengths with a sign. The one for requests takes lines without a colon too, and
    reads the first line as a field. `strict_iff_plain` says which of the accepted
    heads are strict and read alike by both.
-/

namespace Synvoid.Mesh

open Synvoid.Framework
open Synvoid.Http

/-! ### Lines of bytes -/

/-- The lines, each with its end. -/
def joinLines (header : List Bytes) : Bytes := header.flatMap (· ++ crlf)

/-- Carriage return and line feed only as a pair. -/
def pairedBreaks : Bytes → Bool
  | 13 :: 10 :: rest => pairedBreaks rest
  | b :: rest => b ≠ 13 && b ≠ 10 && pairedBreaks rest
  | [] => true

/-- What stands before each CRLF, and what is left behind the last. -/
def crlfLines : Bytes → List Bytes
  | 13 :: 10 :: rest => [] :: crlfLines rest
  | b :: rest =>
      match crlfLines rest with
      | [] => [[b]]
      | line :: more => (b :: line) :: more
  | [] => []

def Unbroken (line : Bytes) : Prop := 13 ∉ line ∧ 10 ∉ line

theorem Unbroken.tail {b : UInt8} {line : Bytes} (h : Unbroken (b :: line)) :
    b ≠ 13 ∧ b ≠ 10 ∧ Unbroken line := by
  obtain ⟨hcr, hlf⟩ := h
  rw [List.mem_cons, not_or] at hcr hlf
  exact ⟨Ne.symm hcr.1, Ne.symm hlf.1, hcr.2, hlf.2⟩

theorem pairedBreaks_cons {b : UInt8} (hcr : b ≠ 13) (hlf : b ≠ 10) (rest : Bytes) :
    pairedBreaks (b :: rest) = pairedBreaks rest := by
  rw [pairedBreaks]
  · simp [hcr, hlf]
  · intro _ h
    exact absurd h hcr

theorem crlfLines_cons {b : UInt8} (hcr : b ≠ 13) {rest line : Bytes} {more : List Bytes}
    (h : crlfLines rest = line :: more) : crlfLines (b :: rest) = (b :: line) :: more := by
  rw [crlfLines]
  · rw [h]
  · intro _ h
    exact absurd h hcr

theorem pairedBreaks_append {line : Bytes} (h : Unbroken line) (rest : Bytes) :
    pairedBreaks (line ++ crlf ++ rest) = pairedBreaks rest := by
  induction line with
  | nil => rfl
  | cons b line ih =>
    obtain ⟨hcr, hlf, htail⟩ := h.tail
    rw [List.cons_append, List.cons_append, pairedBreaks_cons hcr hlf, ih htail]

theorem crlfLines_append {line : Bytes} (h : Unbroken line) (rest : Bytes) :
    crlfLines (line ++ crlf ++ rest) = line :: crlfLines rest := by
  induction line with
  | nil => rfl
  | cons b line ih =>
    obtain ⟨hcr, -, htail⟩ := h.tail
    rw [List.cons_append, List.cons_append]
    exact crlfLines_cons hcr (ih htail)

theorem joinLines_cons (line : Bytes) (header : List Bytes) :
    joinLines (line :: header) = line ++ crlf ++ joinLines header := rfl

/-- Lines without other breaks are found again. -/
theorem of_joinLines {header : List Bytes} (h : ∀ line ∈ header, Unbroken line) :
    pairedBreaks (joinLines header) = true ∧ crlfLines (joinLines header) = header ∧
      lines (fromUtf8Lossy (joinLines header)) = header.map fromUtf8Lossy := by
  induction header with
  | nil => exact ⟨rfl, rfl, rfl⟩
  | cons line header ih =>
    have hline := h line (by simp)
    obtain ⟨hpaired, hlines, htext⟩ := ih fun l hl => h l (by simp [hl])
    rw [joinLines_cons]
    refine ⟨?_, ?_, ?_⟩
    · rw [pairedBreaks_append hline, hpaired]
    · rw [crlfLines_append hline, hlines]
    · rw [fromUtf8Lossy_crlf, lines_append (newline_notMem hline.2), htext]
      rfl

/-- Where breaks are paired and the last is at the end, there are such lines. -/
theorem exists_joinLines {head : Bytes} (hpaired : pairedBreaks head = true)
    (hends : head = [] ∨ crlf <:+ head) :
    ∃ header, (∀ line ∈ header, Unbroken line) ∧ head = joinLines header := by
  induction head using pairedBreaks.induct with
  | case1 rest ih =>
    have hrest : rest = [] ∨ crlf <:+ rest := by
      rcases hends with h | h
      · cases h
      rcases List.suffix_cons_iff.mp h with h | h
      · exact .inl (by simpa [crlf] using h.symm)
      rcases List.suffix_cons_iff.mp h with h | h
      · exact absurd (List.cons.inj h).1 (by decide)
      · exact .inr h
    obtain ⟨header, hheader, rfl⟩ := ih (by simpa [pairedBreaks] using hpaired) hrest
    refine ⟨[] :: header, ?_, rfl⟩
    rintro line hline
    rcases List.mem_cons.mp hline with rfl | hline
    · exact ⟨by simp, by simp⟩
    · exact hheader line hline
  | case2 b rest hnot ih =>
    rw [pairedBreaks] at hpaired
    · simp only [ne_eq, Bool.and_eq_true, decide_eq_true_eq] at hpaired
      obtain ⟨⟨hcr, hlf⟩, hpaired⟩ := hpaired
      have hrest : crlf <:+ rest := by
        rcases hends with h | h
        · cases h
        rcases List.suffix_cons_iff.mp h with h | h
        · exact absurd (List.cons.inj h).1.symm hcr
        · exact h
      obtain ⟨header, hheader, rfl⟩ := ih hpaired (.inr hrest)
      cases header with
      | nil => exact absurd hrest.length_le (by simp [joinLines, crlf])
      | cons line more =>
        refine ⟨(b :: line) :: more, ?_, rfl⟩
        intro l hl
        rcases List.mem_cons.mp hl with rfl | hl
        · have hline := hheader line (by simp)
          exact ⟨by simp [Ne.symm hcr, hline.1], by simp [Ne.symm hlf, hline.2]⟩
        · exact hheader l (by simp [hl])
    · exact hnot
  | case3 => exact ⟨[], by simp, rfl⟩

/-- A head is a first line, lines that are not empty, and an empty line. -/
theorem exists_head {header : List Bytes} (h : ∀ line ∈ header, Unbroken line)
    (hends : EndsFirst headEnd (joinLines header)) :
    ∃ first fields, header = first :: fields ++ [[]] ∧ ∀ line ∈ fields, line ≠ [] := by
  have hconcat (front : List Bytes) (line : Bytes) :
      joinLines (front ++ [line]) = joinLines front ++ line ++ crlf := by
    simp [joinLines]
  have hsuffix := hends.suffix
  rcases List.eq_nil_or_concat header with rfl | ⟨front, last, rfl⟩
  · exact absurd hsuffix.length_le (by simp [joinLines, headEnd])
  rw [List.concat_eq_append] at h hends hsuffix ⊢
  rw [hconcat] at hsuffix
  have hbefore : crlf <:+ joinLines front ++ last :=
    List.suffix_append_self_iff.mp (show crlf ++ crlf <:+ _ from hsuffix)
  -- the last line is empty: its last byte is no line feed
  obtain rfl : last = [] := by
    rcases List.eq_nil_or_concat last with rfl | ⟨line, b, rfl⟩
    · rfl
    · rw [List.concat_eq_append] at h hbefore
      rw [← List.append_assoc] at hbefore
      have hb : (10 : UInt8) = b := by
        obtain ⟨more, hmore⟩ := hbefore
        have hlast := congrArg List.getLast? hmore
        simpa [crlf] using hlast
      have hlf := (h (line ++ [b]) (by simp)).2
      exact absurd (by simp [hb]) hlf
  rw [List.append_nil] at hbefore
  cases front with
  | nil => exact absurd hbefore.length_le (by simp [joinLines, crlf])
  | cons first fields =>
    refine ⟨first, fields, rfl, ?_⟩
    rintro line hline rfl
    -- an empty line in the middle would be an earlier end of the head
    obtain ⟨before, after, rfl⟩ := List.append_of_mem hline
    have hsplit : joinLines (first :: (before ++ [] :: after) ++ [[]]) =
        joinLines (first :: before ++ [[]]) ++ joinLines (after ++ [[]]) := by
      simp [joinLines]
    have hearly : headEnd <:+ joinLines (first :: before ++ [[]]) := by
      rw [hconcat, List.append_nil]
      have hcrlf : crlf <:+ joinLines (first :: before) := by
        rcases List.eq_nil_or_concat (first :: before) with hnil | ⟨init, last, hinit⟩
        · cases hnil
        · rw [hinit, List.concat_eq_append, hconcat]
          exact List.suffix_append _ _
      exact List.suffix_append_self_iff.mpr hcrlf
    have heq := hends.first _ (hsplit ▸ List.prefix_append _ _) hearly
    have hlength := congrArg List.length heq
    rw [hsplit] at hlength
    simp [joinLines, crlf] at hlength

/-! ### Strict heads -/

structure HeaderLine where
  name : Bytes
  value : Bytes
  isToken : IsToken name
  unbroken : Unbroken value

namespace HeaderLine

def bytes (field : HeaderLine) : Bytes := field.name ++ 58 :: field.value

def isNamed (key : String) (field : HeaderLine) : Bool :=
  eqIgnoreAsciiCase (asciiChars field.name) key.toList

end HeaderLine

/-- Digits, with blanks around them. -/
def IsLength (value : Bytes) : Prop :=
  ∃ lead digits trail, IsBlanks lead ∧ IsBlanks trail ∧ digits ≠ [] ∧
    (asciiChars digits).all Char.isDigit = true ∧ value = lead ++ digits ++ trail

/-- The head is made of a first line, header lines and an empty line. -/
structure HeadParts (head first : Bytes) (fields : List HeaderLine) : Prop where
  unbroken : Unbroken first
  bytes : head = joinLines (first :: fields.map HeaderLine.bytes ++ [[]])
  lengths : ∀ field ∈ fields, field.isNamed "content-length" = true → IsLength field.value
  exclusive : ¬ ((∃ field ∈ fields, field.isNamed "content-length" = true) ∧
    ∃ field ∈ fields, field.isNamed "transfer-encoding" = true)

def StrictHead (head : Bytes) : Prop := ∃ first fields, HeadParts head first fields

/-- Both parsers derive the same from the head, or neither derives anything. -/
def SameFraming (toLowercase : Str → Str) (head : Bytes) : Prop :=
  ∀ contentLength chunked,
    parseHttpBodyFraming toLowercase (fromUtf8Lossy head) = .ok (contentLength, chunked) ↔
      ∃ close, parseHttpResponseFraming toLowercase (fromUtf8Lossy head) =
        .ok ⟨contentLength, chunked, close⟩

/-! ### Plain heads -/

/-- A token and a colon behind it. -/
def beginsWithName (line : Bytes) : Bool :=
  line.takeWhile isTchar ≠ [] && (line.dropWhile isTchar).head? = some 58

/-- What may stand in a value that is read as a number: no sign, and no white space
    but blanks and tabs. -/
def isLengthByte (b : UInt8) : Bool := b ≠ 43 && b ≠ 11 && b ≠ 12 && b < 128

/-- A length, if the line is read as one, has only such bytes behind its name. -/
def plainLength (line : Bytes) : Bool :=
  (fieldValue "content-length" (fromUtf8Lossy line)).isNone ||
    (line.dropWhile isTchar).all isLengthByte

/-- If the first line is read as a field of the name `key`, another line is too. -/
def repeated (key : String) : List Str → Bool
  | [] => true
  | first :: rest =>
      (fieldValue key first).isNone || rest.any fun line => (fieldValue key line).isSome

structure PlainHead (head : Bytes) : Prop where
  paired : pairedBreaks head = true
  named : ((crlfLines head).tail.all fun line => line.isEmpty || beginsWithName line) = true
  lengths : (crlfLines head).tail.all plainLength = true
  length : repeated "content-length" (lines (fromUtf8Lossy head)) = true
  coding : repeated "transfer-encoding" (lines (fromUtf8Lossy head)) = true

/-- A line with a token and a colon in front is a header line. -/
theorem exists_headerLine {line : Bytes} (h : beginsWithName line = true) (hline : Unbroken line) :
    ∃ field : HeaderLine, field.bytes = line ∧ line.takeWhile isTchar = field.name ∧
      line.dropWhile isTchar = 58 :: field.value := by
  unfold beginsWithName at h
  simp only [ne_eq, Bool.and_eq_true, decide_eq_true_eq] at h
  obtain ⟨hne, hcolon⟩ := h
  cases hrest : line.dropWhile isTchar with
  | nil =>
    rw [hrest] at hcolon
    cases hcolon
  | cons b value =>
    obtain rfl : b = 58 := by simpa [hrest] using hcolon
    have hwhole : line.takeWhile isTchar ++ 58 :: value = line := by
      rw [← hrest, List.takeWhile_append_dropWhile]
    refine ⟨⟨line.takeWhile isTchar, value, ⟨hne, List.all_takeWhile⟩, ?_⟩, hwhole, rfl, rfl⟩
    have hsub : value ⊆ line := by
      rw [← hwhole]
      intro x hx
      simp [hx]
    exact ⟨fun hmem => hline.1 (hsub hmem), fun hmem => hline.2 (hsub hmem)⟩

theorem HeaderLine.unbroken_bytes (field : HeaderLine) : Unbroken field.bytes := by
  have htchar := List.all_eq_true.mp field.isToken.2
  constructor
  · intro hmem
    rcases List.mem_append.mp hmem with hmem | hmem
    · exact absurd (htchar 13 hmem) (by decide)
    · rcases List.mem_cons.mp hmem with hmem | hmem
      · exact absurd hmem (by decide)
      · exact field.unbroken.1 hmem
  · intro hmem
    rcases List.mem_append.mp hmem with hmem | hmem
    · exact absurd (htchar 10 hmem) (by decide)
    · rcases List.mem_cons.mp hmem with hmem | hmem
      · exact absurd hmem (by decide)
      · exact field.unbroken.2 hmem

theorem HeaderLine.dropWhile_bytes (field : HeaderLine) :
    field.bytes.takeWhile isTchar = field.name ∧
      field.bytes.dropWhile isTchar = 58 :: field.value := by
  have htchar := List.all_eq_true.mp field.isToken.2
  have hcolon : isTchar 58 = false := by decide
  unfold HeaderLine.bytes
  rw [List.takeWhile_append_of_pos htchar, List.dropWhile_append_of_pos htchar]
  simp [hcolon]

/-- How the parsers read a header line. -/
theorem fieldValue_headerLine (key : String) (field : HeaderLine) :
    fieldValue key (fromUtf8Lossy field.bytes) =
      if field.isNamed key then some (trim (fromUtf8Lossy field.value)) else none := by
  obtain ⟨-, hsplit⟩ := splitOnce_line field.isToken field.value
  unfold fieldValue HeaderLine.bytes
  rw [hsplit]
  simp only [trim_token field.isToken, trim_trimEnd]
  rfl

/-! ### Lengths -/

theorem isLengthByte_of_isLength {value : Bytes} (h : IsLength value) :
    value.all isLengthByte = true := by
  obtain ⟨lead, digits, trail, hlead, htrail, -, hdigits, rfl⟩ := h
  have hblank : ∀ b, isBlank b = true → isLengthByte b = true := by
    intro b hb
    unfold isBlank at hb
    simp only [Bool.or_eq_true, beq_iff_eq] at hb
    rcases hb with rfl | rfl <;> decide
  have hdigit : ∀ b ∈ digits, isLengthByte b = true := by
    intro b hb
    have hchar := List.all_eq_true.mp hdigits _ (List.mem_map_of_mem hb)
    have hascii := ascii_of_digits hdigits b hb
    unfold isLengthByte
    simp only [ne_eq, Bool.and_eq_true, decide_eq_true_eq]
    refine ⟨⟨⟨?_, ?_⟩, ?_⟩, hascii⟩ <;> rintro rfl <;> exact absurd hchar (by decide)
  rw [List.all_append, List.all_append, Bool.and_eq_true, Bool.and_eq_true]
  exact ⟨⟨List.all_eq_true.mpr fun b hb => hblank b (List.all_eq_true.mp hlead b hb),
    List.all_eq_true.mpr hdigit⟩,
    List.all_eq_true.mpr fun b hb => hblank b (List.all_eq_true.mp htrail b hb)⟩

/-- Of the bytes in a value, only blanks and tabs are white space. -/
theorem isBlank_of_isWhitespace {b : UInt8} (hb : isLengthByte b = true) (hcr : b ≠ 13)
    (hlf : b ≠ 10) (h : isWhitespace (Char.ofNat b.toNat) = true) : isBlank b = true := by
  have hne (c : UInt8) (hc : b ≠ c) : b.toNat ≠ c.toNat := fun heq => hc (UInt8.toNat_inj.mp heq)
  unfold isLengthByte at hb
  simp only [ne_eq, Bool.and_eq_true, decide_eq_true_eq] at hb
  obtain ⟨⟨⟨-, hvt⟩, hff⟩, hascii⟩ := hb
  have hascii' : b.toNat < 128 := hascii
  have hcr' : b.toNat ≠ 13 := hne 13 hcr
  have hlf' : b.toNat ≠ 10 := hne 10 hlf
  have hvt' : b.toNat ≠ 11 := hne 11 hvt
  have hff' : b.toNat ≠ 12 := hne 12 hff
  unfold isWhitespace at h
  simp only [toNat_ofNat_byte, Bool.or_eq_true, Bool.and_eq_true, decide_eq_true_eq,
    beq_iff_eq] at h
  have hcode : b.toNat = 32 ∨ b.toNat = 9 := by omega
  unfold isBlank
  rw [Bool.or_eq_true, beq_iff_eq, beq_iff_eq]
  exact hcode.imp (fun h => UInt8.toNat_inj.mp h) fun h => UInt8.toNat_inj.mp h

/-- A value that is read as a number and has only such bytes is a length. -/
theorem isLength_of_parse {value : Bytes} {n : Nat} (hvalue : Unbroken value)
    (hbytes : value.all isLengthByte = true)
    (hparse : parseUnsigned usizeMax (trim (fromUtf8Lossy value)) = some n) : IsLength value := by
  have hbyte := List.all_eq_true.mp hbytes
  have hascii : ∀ b ∈ value, b.toNat < 0x80 := by
    intro b hb
    have := hbyte b hb
    unfold isLengthByte at this
    simp only [Bool.and_eq_true, decide_eq_true_eq] at this
    exact this.2
  have htext : fromUtf8Lossy value = asciiChars value := by
    have hend := fromUtf8Lossy_ascii_append hascii []
    rw [List.append_nil] at hend
    rw [hend]
    exact List.append_nil _
  rw [htext] at hparse
  obtain ⟨lead, trail, hlead, htrail, hsplit⟩ := exists_trim (asciiChars value)
  have hsign : (trim (asciiChars value)).head? ≠ some '+' := by
    intro hplus
    have hmem : '+' ∈ asciiChars value := by
      rw [hsplit]
      exact List.mem_append_right _ (List.mem_append_left _ (List.mem_of_head? hplus))
    obtain ⟨b, hb, hchar⟩ := List.mem_map.mp hmem
    have hcode := congrArg Char.toNat hchar
    rw [toNat_ofNat_byte] at hcode
    obtain rfl : b = 43 := UInt8.toNat_inj.mp hcode
    exact absurd (hbyte 43 hb) (by decide)
  obtain ⟨hne, hdigits, -, -⟩ := digits_of_parseUnsigned hparse hsign
  obtain ⟨l₁, l₂, rfl, h₁, h₂⟩ := List.map_eq_append_iff.mp hsplit
  obtain ⟨l₃, l₄, rfl, h₃, h₄⟩ := List.map_eq_append_iff.mp h₂
  have hblanks {l : Bytes} {w : Str} (hl : l ⊆ l₁ ++ (l₃ ++ l₄))
      (hw : l.map (fun c => Char.ofNat c.toNat) = w) (hwhite : ∀ c ∈ w, isWhitespace c = true) :
      IsBlanks l := by
    refine List.all_eq_true.mpr fun b hb => ?_
    have hmem := hl hb
    refine isBlank_of_isWhitespace (hbyte b hmem) ?_ ?_ (hwhite _ (hw ▸ List.mem_map_of_mem hb))
    · rintro rfl
      exact hvalue.1 hmem
    · rintro rfl
      exact hvalue.2 hmem
  refine ⟨l₁, l₃, l₄, hblanks (by simp) h₁ hlead, hblanks (by simp) h₄ htrail, ?_, ?_, by simp⟩
  · rintro rfl
    exact hne h₃.symm
  · rw [asciiChars, h₃]
    exact hdigits

/-! ### The first line -/

/-- A status line is not read as a length or a coding. -/
theorem fieldValue_statusLine {line : Str} {r : HttpVersion × Nat}
    (h : parseHttpResponseStatusLine line = .ok r) :
    fieldValue "content-length" line = none ∧ fieldValue "transfer-encoding" line = none := by
  have hfront : ∃ rest, line = 'H' :: rest := by
    have hversion : ∃ version rest, line = version ++ rest ∧
        ∃ v, parseHttpVersion (trimEnd version) = .ok v := by
      unfold parseHttpResponseStatusLine at h
      unfold splitn at h
      cases hsplit : splitOnce ' ' line with
      | none =>
        rw [hsplit] at h
        simp only [List.head?_cons, bind, Except.bind] at h
        split at h
        · cases h
        · next v hv => exact ⟨line, [], (List.append_nil _).symm, v, hv⟩
      | some pair =>
        rw [hsplit] at h
        simp only [List.head?_cons, bind, Except.bind] at h
        split at h
        · cases h
        · next v hv => exact ⟨pair.1, ' ' :: pair.2, splitOnce_eq_some hsplit, v, hv⟩
    obtain ⟨version, rest, rfl, v, hv⟩ := hversion
    obtain ⟨blanks, -, hblanks⟩ := exists_trimEnd version
    have hname : ∃ more, trimEnd version = 'H' :: more := by
      unfold parseHttpVersion at hv
      split at hv
      · next heq => exact ⟨_, heq⟩
      · split at hv
        · next heq => exact ⟨_, heq⟩
        · cases hv
    obtain ⟨more, hmore⟩ := hname
    rw [hmore] at hblanks
    exact ⟨more ++ blanks ++ rest, by rw [hblanks]; simp⟩
  obtain ⟨rest, rfl⟩ := hfront
  have hkeep (t : Str) : trim ('H' :: t) = 'H' :: trimEnd t := trimEnd_append_cons (by decide) [] t
  unfold fieldValue
  rw [hkeep, splitOnce, if_neg (by decide)]
  cases splitOnce ':' (trimEnd rest) with
  | none => exact ⟨rfl, rfl⟩
  | some pair =>
    simp only [Option.map_some, hkeep]
    constructor
    · rw [if_neg (by simp [eqIgnoreAsciiCase])]
    · rw [if_neg (by simp [eqIgnoreAsciiCase])]

section First
variable {toLowercase : Str → Str} {first : Str} {rest : List Str} {contentLength : Option Nat}
  {chunked : Bool}

/-- If the first line adds nothing, what it says is said again. -/
theorem repeated_of_both (h : Says toLowercase (first :: rest) none false contentLength chunked)
    (hrest : Says toLowercase rest none false contentLength chunked) :
    repeated "content-length" (first :: rest) = true ∧
      repeated "transfer-encoding" (first :: rest) = true := by
  rw [repeated, repeated]
  constructor
  · cases hfirst : fieldValue "content-length" first with
    | none => rfl
    | some value =>
      by_contra hnone
      have hnone' : ∀ line ∈ rest, fieldValue "content-length" line = none := by
        simpa using hnone
      obtain ⟨n, -, hn⟩ := h.lengths first (by simp) value hfirst
      rw [hrest.absent hnone'] at hn
      cases hn
  · cases hfirst : fieldValue "transfer-encoding" first with
    | none => rfl
    | some value =>
      have hcoded := h.coded
      rw [hrest.coded] at hcoded
      simpa [hfirst] using hcoded

theorem says_of_repeated (h : Says toLowercase (first :: rest) none false contentLength chunked)
    (hlength : repeated "content-length" (first :: rest) = true)
    (hcoding : repeated "transfer-encoding" (first :: rest) = true) :
    Says toLowercase rest none false contentLength chunked := by
  rw [repeated] at hlength hcoding
  refine ⟨fun l hl => h.lengths l (by simp [hl]), by simp, fun hnone => ?_,
    fun l hl => h.codings l (by simp [hl]), ?_⟩
  · have hfirst : fieldValue "content-length" first = none := by
      have hany : (rest.any fun line => (fieldValue "content-length" line).isSome) = false := by
        simpa using hnone
      rw [hany, Bool.or_false] at hlength
      exact Option.isNone_iff_eq_none.mp hlength
    refine h.absent fun l hl => ?_
    rcases List.mem_cons.mp hl with rfl | hl
    · exact hfirst
    · exact hnone l hl
  · rw [h.coded]
    cases hfirst : fieldValue "transfer-encoding" first with
    | none => simp [hfirst]
    | some value =>
      rw [hfirst] at hcoding
      simpa [hfirst] using hcoding

theorem says_unique {contentLength' : Option Nat} {chunked' : Bool}
    (h : Says toLowercase rest none false contentLength chunked)
    (h' : Says toLowercase rest none false contentLength' chunked') :
    contentLength = contentLength' ∧ chunked = chunked' := by
  have heq :=
    ((bodyFramingLines_ok_iff rest).mpr h).symm.trans ((bodyFramingLines_ok_iff rest).mpr h')
  simpa using heq

end First

/-! ### Accepted heads -/

section accepted
variable {toLowercase : Str → Str} {head first : Bytes}

/-- The lines of a strict head, for either reader. -/
theorem lines_of_headerLines {fields : List HeaderLine} (hfirst : Unbroken first)
    (hhead : head = joinLines (first :: fields.map HeaderLine.bytes ++ [[]])) :
    pairedBreaks head = true ∧ (crlfLines head).tail = fields.map HeaderLine.bytes ++ [[]] ∧
      lines (fromUtf8Lossy head) = fromUtf8Lossy first ::
        (fields.map HeaderLine.bytes ++ [[]]).map fromUtf8Lossy := by
  have hunbroken : ∀ line ∈ first :: fields.map HeaderLine.bytes ++ [[]], Unbroken line := by
    intro line hline
    simp only [List.cons_append, List.mem_cons, List.mem_append, List.mem_map, List.not_mem_nil,
      or_false] at hline
    rcases hline with rfl | ⟨field, -, rfl⟩ | rfl
    · exact hfirst
    · exact field.unbroken_bytes
    · exact ⟨by simp, by simp⟩
  obtain ⟨hpaired, hlines, htext⟩ := of_joinLines hunbroken
  rw [hhead]
  exact ⟨hpaired, by rw [hlines]; rfl, htext⟩

/-- A plain head is made of header lines. -/
theorem PlainHead.parts (h : PlainHead head) (hends : EndsFirst headEnd head) :
    ∃ (first : Bytes) (fields : List HeaderLine), Unbroken first ∧
      head = joinLines (first :: fields.map HeaderLine.bytes ++ [[]]) := by
  have hcrlf : crlf <:+ head := List.IsSuffix.trans (by decide) hends.suffix
  obtain ⟨header, hunbroken, rfl⟩ := exists_joinLines h.paired (.inr hcrlf)
  obtain ⟨first, fields, rfl, hne⟩ := exists_head hunbroken hends
  have hnamed := h.named
  rw [(of_joinLines hunbroken).2.1] at hnamed
  have hlines : ∀ line ∈ fields, ∃ field : HeaderLine, field.bytes = line := by
    intro line hline
    have hname := List.all_eq_true.mp hnamed line (by simp [hline])
    rw [Bool.or_eq_true, List.isEmpty_iff] at hname
    obtain ⟨field, hfield, -⟩ := exists_headerLine (hname.resolve_left (hne line hline))
      (hunbroken line (by simp [hline]))
    exact ⟨field, hfield⟩
  have hall : ∃ all : List HeaderLine, all.map HeaderLine.bytes = fields := by
    clear hnamed hne h hends hcrlf hunbroken
    induction fields with
    | nil => exact ⟨[], rfl⟩
    | cons line fields ih =>
      obtain ⟨field, hfield⟩ := hlines line (by simp)
      obtain ⟨all, hall⟩ := ih fun l hl => hlines l (by simp [hl])
      exact ⟨field :: all, by rw [List.map_cons, hfield, hall]⟩
  obtain ⟨all, rfl⟩ := hall
  exact ⟨first, all, hunbroken first (by simp), rfl⟩

theorem endsFirst_of_accepted
    (h : AcceptedRequest toLowercase head ∨ AcceptedResponse toLowercase head) :
    EndsFirst headEnd head := h.elim (fun h => h.parsed.1) fun h => h.parsed.1

/-- A strict head that both parsers read alike is plain. -/
theorem plain_of_strict (h : AcceptedRequest toLowercase head ∨ AcceptedResponse toLowercase head)
    (hstrict : StrictHead head) (hsame : SameFraming toLowercase head) : PlainHead head := by
  obtain ⟨first, fields, hparts⟩ := hstrict
  obtain ⟨hpaired, hlines, htext⟩ := lines_of_headerLines hparts.unbroken hparts.bytes
  have hboth : ∃ contentLength chunked,
      parseHttpBodyFraming toLowercase (fromUtf8Lossy head) = .ok (contentLength, chunked) ∧
      ∃ close, parseHttpResponseFraming toLowercase (fromUtf8Lossy head) =
        .ok ⟨contentLength, chunked, close⟩ := by
    rcases h with h | h
    · obtain ⟨-, contentLength, chunked, hparse⟩ := h.parsed
      exact ⟨contentLength, chunked, hparse, (hsame _ _).mp hparse⟩
    · obtain ⟨-, -, ⟨contentLength, chunked, close⟩, hparse⟩ := h.parsed
      exact ⟨contentLength, chunked, (hsame _ _).mpr ⟨close, hparse⟩, close, hparse⟩
  obtain ⟨contentLength, chunked, hrequest, hresponse⟩ := hboth
  have hstated := (parseHttpBodyFraming_ok_iff.mp hrequest).1
  have hstated' := (parseHttpResponseFraming_ok_iff.mp hresponse).2.1
  rw [htext] at hstated hstated'
  obtain ⟨hlength, hcoding⟩ := repeated_of_both hstated hstated'
  refine ⟨hpaired, ?_, ?_, by rw [htext]; exact hlength, by rw [htext]; exact hcoding⟩
  · rw [hlines]
    refine List.all_eq_true.mpr fun line hline => ?_
    simp only [List.mem_append, List.mem_map, List.mem_singleton] at hline
    rcases hline with ⟨field, -, rfl⟩ | rfl
    · obtain ⟨hname, hrest⟩ := field.dropWhile_bytes
      simp [beginsWithName, hname, hrest, field.isToken.1]
    · rfl
  · rw [hlines]
    refine List.all_eq_true.mpr fun line hline => ?_
    simp only [List.mem_append, List.mem_map, List.mem_singleton] at hline
    rcases hline with ⟨field, hfield, rfl⟩ | rfl
    · unfold plainLength
      rw [fieldValue_headerLine, field.dropWhile_bytes.2]
      by_cases hnamed : field.isNamed "content-length" = true
      · rw [if_pos hnamed, List.all_cons,
          isLengthByte_of_isLength (hparts.lengths field hfield hnamed)]
        rfl
      · rw [if_neg hnamed]
        rfl
    · decide

/-- What the header lines of a plain head say, for either reader. -/
theorem PlainHead.stated (hplain : PlainHead head)
    (h : AcceptedRequest toLowercase head ∨ AcceptedResponse toLowercase head)
    {first : Str} {rest : List Str} (htext : lines (fromUtf8Lossy head) = first :: rest) :
    ∃ contentLength chunked, Says toLowercase (first :: rest) none false contentLength chunked ∧
      Says toLowercase rest none false contentLength chunked ∧
      (chunked && contentLength.isSome) = false := by
  have hlength := hplain.length
  have hcoding := hplain.coding
  rw [htext] at hlength hcoding
  rcases h with h | h
  · obtain ⟨-, contentLength, chunked, hparse⟩ := h.parsed
    obtain ⟨hstated, hone⟩ := parseHttpBodyFraming_ok_iff.mp hparse
    rw [htext] at hstated
    exact ⟨contentLength, chunked, hstated, says_of_repeated hstated hlength hcoding, hone⟩
  · obtain ⟨-, ⟨r, hstatus⟩, ⟨contentLength, chunked, close⟩, hparse⟩ := h.parsed
    obtain ⟨-, hstated, hone⟩ := parseHttpResponseFraming_ok_iff.mp ⟨close, hparse⟩
    rw [htext] at hstated hstatus
    have hfirst : fieldValue "content-length" first = none ∧
        fieldValue "transfer-encoding" first = none := fieldValue_statusLine hstatus
    obtain ⟨hnoLength, hnoCoding⟩ := hfirst
    refine ⟨contentLength, chunked, ?_, hstated, hone⟩
    rw [says_cons_other hnoLength]
    simpa [hnoCoding] using hstated

/-- A plain head that is accepted is strict, and both parsers read it alike. -/
theorem strict_of_plain (h : AcceptedRequest toLowercase head ∨ AcceptedResponse toLowercase head)
    (hplain : PlainHead head) : StrictHead head ∧ SameFraming toLowercase head := by
  obtain ⟨first, fields, hfirst, hhead⟩ := hplain.parts (endsFirst_of_accepted h)
  obtain ⟨-, hlines, htext⟩ := lines_of_headerLines hfirst hhead
  obtain ⟨contentLength, chunked, hwhole, hstated, hone⟩ := hplain.stated h htext
  have hmem : ∀ field ∈ fields, fromUtf8Lossy field.bytes ∈
      (fields.map HeaderLine.bytes ++ [[]]).map fromUtf8Lossy :=
    fun field hfield => List.mem_map_of_mem (List.mem_append_left _ (List.mem_map_of_mem hfield))
  have hvalue {field : HeaderLine} {key : String} (hnamed : field.isNamed key = true) :
      fieldValue key (fromUtf8Lossy field.bytes) = some (trim (fromUtf8Lossy field.value)) := by
    rw [fieldValue_headerLine, if_pos hnamed]
  refine ⟨⟨first, fields, hfirst, hhead, fun field hfield hnamed => ?_, ?_⟩, ?_⟩
  · obtain ⟨n, hparse, -⟩ := hstated.lengths _ (hmem field hfield) _ (hvalue hnamed)
    have hbytes := hplain.lengths
    rw [hlines] at hbytes
    have hline := List.all_eq_true.mp hbytes field.bytes
      (List.mem_append_left _ (List.mem_map_of_mem hfield))
    unfold plainLength at hline
    rw [hvalue hnamed, field.dropWhile_bytes.2, List.all_cons] at hline
    refine isLength_of_parse field.unbroken ?_ hparse
    simp only [Option.isNone_some, Bool.false_or, Bool.and_eq_true] at hline
    exact hline.2
  · rintro ⟨⟨field, hfield, hnamed⟩, field', hfield', hnamed'⟩
    obtain ⟨n, -, rfl⟩ := hstated.lengths _ (hmem field hfield) _ (hvalue hnamed)
    have hcoded : chunked = true := by
      rw [hstated.coded, Bool.false_or]
      exact List.any_eq_true.mpr ⟨_, hmem field' hfield', by rw [hvalue hnamed']; rfl⟩
    rw [hcoded] at hone
    cases hone
  · intro contentLength' chunked'
    rw [parseHttpBodyFraming_ok_iff, parseHttpResponseFraming_ok_iff, htext, List.tail_cons]
    have hcolons : ∀ line ∈ (fields.map HeaderLine.bytes ++ [[]]).map fromUtf8Lossy,
        HasColon line := by
      intro line hline
      simp only [List.map_append, List.map_map, List.map_cons, List.map_nil, List.mem_append,
        List.mem_map, List.mem_singleton, Function.comp_apply] at hline
      rcases hline with ⟨field, -, rfl⟩ | rfl
      · refine .inr ?_
        rw [HeaderLine.bytes, (splitOnce_line field.isToken field.value).2]
        rfl
      · exact .inl rfl
    constructor
    · rintro ⟨hstated', hone'⟩
      have hlength := hplain.length
      have hcoding := hplain.coding
      rw [htext] at hlength hcoding
      exact ⟨hcolons, says_of_repeated hstated' hlength hcoding, hone'⟩
    · rintro ⟨-, hstated', hone'⟩
      obtain ⟨rfl, rfl⟩ := says_unique hstated hstated'
      exact ⟨hwhole, hone'⟩

/-- **An accepted head is strict and read alike by both parsers** just if it is
    plain. -/
theorem strict_iff_plain
    (h : AcceptedRequest toLowercase head ∨ AcceptedResponse toLowercase head) :
    StrictHead head ∧ SameFraming toLowercase head ↔ PlainHead head :=
  ⟨fun hboth => plain_of_strict h hboth.1 hboth.2, strict_of_plain h⟩

end accepted

/-- `GET / HTTP/1.1`, with a length of 5. -/
private def getHead : Bytes :=
  [71, 69, 84, 32, 47, 32, 72, 84, 84, 80, 47, 49, 46, 49, 13, 10, 67, 111, 110, 116, 101, 110, 116,
    45, 76, 101, 110, 103, 116, 104, 58, 32, 53, 13, 10, 13, 10]

private def asciiLower (s : Str) : Str := s.map Char.toLower

theorem strict_iff_plain_get : StrictHead getHead ∧ SameFraming asciiLower getHead := by
  have haccepted : AcceptedRequest asciiLower getHead := by
    refine ⟨[.data 69 (getHead.drop 2)], 71, 100, ⟨getHead, [], some 5, false⟩, [], ?_, rfl⟩
    decide +kernel
  refine (strict_iff_plain (.inl haccepted)).mpr ?_
  exact ⟨by decide +kernel, by decide +kernel, by decide +kernel, by decide +kernel,
    by decide +kernel⟩

/-- `HTTP/1.1 200 OK` ended by a line feed alone, and a field. -/
private def bareHead : Bytes :=
  [72, 84, 84, 80, 47, 49, 46, 49, 32, 50, 48, 48, 32, 79, 75, 10, 65, 58, 98, 13, 10, 13, 10]

/-- A head with a line that ends in a line feed alone is accepted. -/
theorem bare_line_feed_accepted :
    ¬ ∀ (toLowercase : Str → Str) (head : Bytes),
      AcceptedRequest toLowercase head ∨ AcceptedResponse toLowercase head →
        StrictHead head ∧ SameFraming toLowercase head := by
  intro h
  have haccepted : AcceptedResponse asciiLower bareHead := by
    refine ⟨bareHead, 100, ⟨bareHead, [], 200, none, false, false, .http11, .none⟩, 23, ?_, rfl⟩
    decide +kernel
  obtain ⟨first, fields, hparts⟩ := (h asciiLower bareHead (.inr haccepted)).1
  have hpaired := (lines_of_headerLines hparts.unbroken hparts.bytes).1
  exact absurd hpaired (by decide)

end Synvoid.Mesh
