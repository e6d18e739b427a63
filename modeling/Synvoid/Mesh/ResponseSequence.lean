import Synvoid.Http.Grammar
import Synvoid.Mesh.ResponseHead

/-! # Responses do not depend on packet boundaries

    A stream of informational responses and a final one with a body of a known
    length is read to the same result however it arrives: the head is found at
    its first empty line (`position_head`), before that nothing is parsed, and
    what was read behind it is the beginning of what follows
    (`responseSequenceLoop_spec`).
-/

namespace Synvoid.Mesh

open Synvoid.Framework
open Synvoid.Http

/-! ### Well-formed responses -/

def HttpVersion.bytes : HttpVersion → Bytes
  | .http10 => [72, 84, 84, 80, 47, 49, 46, 48]
  | .http11 => [72, 84, 84, 80, 47, 49, 46, 49]

/-- `3DIGIT`. -/
def statusDigits (status : Nat) : Bytes :=
  [UInt8.ofNat (48 + status / 100), UInt8.ofNat (48 + status / 10 % 10),
    UInt8.ofNat (48 + status % 10)]

/-- `status-line CRLF *( field-line CRLF ) CRLF`, with a status code that is one. -/
structure ResponseHead where
  version : HttpVersion
  status : Nat
  isStatus : 100 ≤ status ∧ status ≤ 599
  reason : Bytes
  isReason : reason.all isValueByte = true
  fields : List Field

namespace ResponseHead

def statusLine (head : ResponseHead) : Bytes :=
  head.version.bytes ++ 32 :: (statusDigits head.status ++ 32 :: head.reason)

def bytes (head : ResponseHead) : Bytes :=
  head.statusLine ++ crlf ++ (fieldLines head.fields ++ crlf)

end ResponseHead

def isNamed (name : String) (field : Field) : Bool :=
  eqIgnoreAsciiCase (asciiChars field.name) name.toList

/-- The value is a number in decimal digits, with blanks around it. -/
def HasLength (n : Nat) (field : Field) : Prop :=
  ∃ lead digits trail, IsBlanks lead ∧ IsBlanks trail ∧ digits ≠ [] ∧
    (asciiChars digits).all Char.isDigit = true ∧ decimalValue (asciiChars digits) = n ∧
    field.value = lead ++ digits ++ trail

/-- A `Connection` field with the option `close`. -/
def closes (field : Field) : Bool :=
  isNamed "connection" field &&
    headerContainsToken (trim (fromUtf8Lossy field.value)) "close".toList

/-- A `1xx` response that is not an upgrade. Such a response has no body, and no
    field that would say otherwise. -/
structure Informational (head : ResponseHead) : Prop where
  status : head.status < 200
  noUpgrade : head.status ≠ 101
  noLength : ∀ field ∈ head.fields, isNamed "content-length" field = false
  noCoding : ∀ field ∈ head.fields, isNamed "transfer-encoding" field = false

/-- A final response with a body of `n` bytes. -/
structure FixedLength (n : Nat) (head : ResponseHead) : Prop where
  status : 200 ≤ head.status
  hasBody : head.status ≠ 204 ∧ head.status ≠ 304
  length : ∃ field ∈ head.fields, isNamed "content-length" field = true
  lengths : ∀ field ∈ head.fields, isNamed "content-length" field = true → HasLength n field
  noCoding : ∀ field ∈ head.fields, isNamed "transfer-encoding" field = false

/-- What is to be returned for a final response. -/
def framed (n : Nat) (head : ResponseHead) (bodyPrefix : Bytes) : FramedHttpResponseHead where
  headerBytes := head.bytes
  bodyPrefix := bodyPrefix
  statusCode := head.status
  contentLength := some n
  chunked := false
  connectionClose := head.fields.any closes
  httpVersion := head.version
  bodyEncoding := .fixedLength

/-! ### The end of the head -/

theorem position_append {l : Bytes} (h : 13 ∉ l) (rest : Bytes) :
    position headEnd (l ++ rest) = (position headEnd rest).map (· + l.length) := by
  induction l with
  | nil => simp
  | cons b l ih =>
    rw [List.mem_cons, not_or] at h
    rw [List.cons_append, position, if_neg, ih h.2, Option.map_map]
    · rfl
    · intro hpre
      exact h.1 (List.cons_prefix_cons.mp hpre).1

/-- A line end that another line follows is passed over. -/
theorem position_crlf {b : UInt8} (h : b ≠ 13) (rest : Bytes) :
    position headEnd (crlf ++ b :: rest) = (position headEnd (b :: rest)).map (· + 2) := by
  have hfirst : ¬ headEnd <+: 13 :: 10 :: b :: rest := by
    intro hpre
    have hb := (List.cons_prefix_cons.mp (List.cons_prefix_cons.mp
      (List.cons_prefix_cons.mp hpre).2).2).1
    exact h hb.symm
  have hsecond : ¬ headEnd <+: 10 :: b :: rest := by
    intro hpre
    exact absurd (List.cons_prefix_cons.mp hpre).1 (by decide)
  show position headEnd (13 :: 10 :: b :: rest) = _
  rw [position, if_neg hfirst, position, if_neg hsecond, Option.map_map]
  rfl

/-- Behind the status line, the first empty line is the last. -/
theorem position_fields (fields : List Field) (rest : Bytes) :
    position headEnd (crlf ++ (fieldLines fields ++ crlf) ++ rest) =
      some (fieldLines fields).length := by
  induction fields with
  | nil => rfl
  | cons field fields ih =>
    obtain ⟨b, more, hbytes, hb⟩ := field.begins
    have hlines : fieldLines (field :: fields) = field.bytes ++ crlf ++ fieldLines fields := rfl
    have hline : crlf ++ (fieldLines (field :: fields) ++ crlf) ++ rest =
        crlf ++ b :: (more ++ (crlf ++ (fieldLines fields ++ crlf) ++ rest)) := by
      simp [hlines, hbytes]
    have hvalue := (notMem_of_isValue field.isValue_bytes).1
    rw [hline, position_crlf hb, ← List.cons_append, ← hbytes, position_append hvalue, ih]
    simp [hlines, crlf]
    omega

/-- A decimal digit as a byte and as a character. -/
theorem digit_facts {d : Nat} (h : d < 10) :
    isValueByte (UInt8.ofNat (48 + d)) = true ∧ (UInt8.ofNat (48 + d)).toNat = 48 + d ∧
      (Char.ofNat (48 + d)).isDigit = true ∧ (Char.ofNat (48 + d)).toNat = 48 + d := by
  interval_cases d <;> decide

theorem statusLine_isValue (head : ResponseHead) :
    ∀ b ∈ head.statusLine, isValueByte b = true := by
  have hstatus := head.isStatus
  intro b hb
  simp only [ResponseHead.statusLine, statusDigits, List.mem_append, List.mem_cons,
    List.not_mem_nil, or_false] at hb
  rcases hb with hb | rfl | (rfl | rfl | rfl) | rfl | hb
  · cases hversion : head.version <;> rw [hversion] at hb <;> simp [HttpVersion.bytes] at hb <;>
      rcases hb with rfl | rfl | rfl | rfl | rfl | rfl | rfl <;> decide
  · decide
  · exact (digit_facts (by omega)).1
  · exact (digit_facts (by omega)).1
  · exact (digit_facts (by omega)).1
  · decide
  · exact List.all_eq_true.mp head.isReason b hb

/-- The head ends at the first empty line. -/
theorem endsFirst_head (head : ResponseHead) : EndsFirst headEnd head.bytes := by
  have hline := (notMem_of_isValue (statusLine_isValue head)).1
  have hpos : position headEnd head.bytes =
      some ((fieldLines head.fields).length + head.statusLine.length) := by
    have hfields := position_fields head.fields []
    rw [List.append_nil] at hfields
    rw [ResponseHead.bytes, List.append_assoc, position_append hline, hfields]
    rfl
  obtain ⟨hends, hlength⟩ := position_some (by decide) hpos
  have hall : head.bytes.take ((fieldLines head.fields).length + head.statusLine.length +
      headEnd.length) = head.bytes := by
    apply List.take_of_length_le
    simp [ResponseHead.bytes, headEnd, crlf]
    omega
  rwa [hall] at hends

/-! ### The text of the head -/

theorem fromUtf8Lossy_crlf (line rest : Bytes) :
    fromUtf8Lossy (line ++ crlf ++ rest) =
      fromUtf8Lossy line ++ '\r' :: '\n' :: fromUtf8Lossy rest := by
  have hcr := fromUtf8Lossy_append (b := 13) (by decide) line (10 :: rest)
  have hlf := fromUtf8Lossy_append (b := 10) (by decide) [] rest
  rw [List.nil_append] at hlf
  rw [hlf] at hcr
  rw [List.append_assoc]
  exact hcr

theorem newline_notMem {line : Bytes} (h : 10 ∉ line) : '\n' ∉ fromUtf8Lossy line := by
  intro hmem
  obtain ⟨b, hb, heq⟩ := byte_of_mem_fromUtf8Lossy hmem (by decide)
  have hcode := congrArg Char.toNat heq
  rw [toNat_ofNat_byte] at hcode
  obtain rfl : b = 10 := UInt8.toNat_inj.mp hcode.symm
  exact h hb

/-- The lines of a head are its status line, its fields and an empty line. -/
theorem lines_head (head : ResponseHead) :
    lines (fromUtf8Lossy head.bytes) = fromUtf8Lossy head.statusLine ::
      (head.fields.map (fun field => fromUtf8Lossy field.bytes) ++ [[]]) := by
  have hfields : ∀ fields : List Field, lines (fromUtf8Lossy (fieldLines fields ++ crlf)) =
      fields.map (fun field => fromUtf8Lossy field.bytes) ++ [[]] := by
    intro fields
    induction fields with
    | nil => decide
    | cons field fields ih =>
      have hlines : fieldLines (field :: fields) ++ crlf =
          field.bytes ++ crlf ++ (fieldLines fields ++ crlf) := by
        simp [fieldLines]
      have hvalue := (notMem_of_isValue field.isValue_bytes).2
      rw [hlines, fromUtf8Lossy_crlf, lines_append (newline_notMem hvalue), ih]
      rfl
  have hstatus := (notMem_of_isValue (statusLine_isValue head)).2
  rw [ResponseHead.bytes, fromUtf8Lossy_crlf, lines_append (newline_notMem hstatus), hfields]

theorem statusDigits_spec {n : Nat} (h : n ≤ 599) :
    (asciiChars (statusDigits n)).all Char.isDigit = true ∧
      decimalValue (asciiChars (statusDigits n)) = n := by
  obtain ⟨-, ha, hachar, hacode⟩ := digit_facts (show n / 100 < 10 by omega)
  obtain ⟨-, hb, hbchar, hbcode⟩ := digit_facts (show n / 10 % 10 < 10 by omega)
  obtain ⟨-, hc, hcchar, hccode⟩ := digit_facts (show n % 10 < 10 by omega)
  have hchars : asciiChars (statusDigits n) =
      [Char.ofNat (48 + n / 100), Char.ofNat (48 + n / 10 % 10), Char.ofNat (48 + n % 10)] := by
    simp only [asciiChars, statusDigits, List.map_cons, List.map_nil, ha, hb, hc]
  refine ⟨by simp [hchars, hachar, hbchar, hcchar], ?_⟩
  simp only [hchars, decimalValue, List.foldl_cons, List.foldl_nil, hacode, hbcode, hccode]
  omega

/-- The status code is read from its digits. -/
theorem parseStatusCode_digits {n : Nat} (h : 100 ≤ n ∧ n ≤ 599) :
    parseStatusCode (trim (asciiChars (statusDigits n))) = .ok n := by
  obtain ⟨hdigits, hvalue⟩ := statusDigits_spec h.2
  have htrim : trim (asciiChars (statusDigits n)) = asciiChars (statusDigits n) :=
    trim_of_none fun c hc => isWhitespace_of_isDigit (List.all_eq_true.mp hdigits c hc)
  have hlength : byteLen (asciiChars (statusDigits n)) = 3 := byteLen_digits hdigits
  have hle : decimalValue (asciiChars (statusDigits n)) ≤ 65535 := by omega
  have hne : asciiChars (statusDigits n) ≠ [] := List.cons_ne_nil _ _
  have hparse := parseUnsigned_digits hne hdigits hle
  rw [hvalue] at hparse
  rw [htrim, parseStatusCode, if_neg (by simp [hlength]), if_neg (by simp [hdigits]), hparse]
  exact if_pos h

theorem parse_statusLine (head : ResponseHead) :
    parseHttpResponseStatusLine (fromUtf8Lossy head.statusLine) =
      .ok (head.version, head.status) := by
  have hversion : ∀ b ∈ head.version.bytes, b.toNat < 0x80 := by
    have hall : (head.version.bytes.all fun b => b.toNat < 0x80) = true := by
      cases head.version <;> decide
    simpa using hall
  obtain ⟨hall, -⟩ := statusDigits_spec head.isStatus.2
  have hdigits := ascii_of_digits hall
  have htext : fromUtf8Lossy head.statusLine = asciiChars head.version.bytes ++
      ' ' :: (asciiChars (statusDigits head.status) ++ ' ' :: fromUtf8Lossy head.reason) := by
    have hblank : ∀ rest, fromUtf8Lossy (32 :: rest) = ' ' :: fromUtf8Lossy rest :=
      fun rest => fromUtf8Lossy_append (b := 32) (by decide) [] rest
    rw [ResponseHead.statusLine, fromUtf8Lossy_ascii_append hversion, hblank,
      fromUtf8Lossy_ascii_append hdigits, hblank]
    rfl
  have hsplit : splitn ' ' 3 (fromUtf8Lossy head.statusLine) =
      [asciiChars head.version.bytes, asciiChars (statusDigits head.status),
        fromUtf8Lossy head.reason] := by
    have hfirst : ' ' ∉ asciiChars head.version.bytes := by cases head.version <;> decide
    have hsecond : ' ' ∉ asciiChars (statusDigits head.status) :=
      fun hmem => absurd (List.all_eq_true.mp hall ' ' hmem) (by decide)
    rw [htext, splitn, splitOnce_append hfirst]
    simp only
    rw [splitn, splitOnce_append hsecond]
    rfl
  have hparse : parseHttpVersion (trimEnd (asciiChars head.version.bytes)) = .ok head.version := by
    cases head.version <;> decide
  unfold parseHttpResponseStatusLine
  rw [hsplit]
  simp only [List.head?_cons, List.tail_cons, hparse, parseStatusCode_digits head.isStatus]
  rfl

/-! ### Fields -/

theorem token_facts {name : Bytes} (h : IsToken name) :
    (∀ b ∈ name, b.toNat < 0x80) ∧ ∀ c ∈ asciiChars name, isWhitespace c = false ∧ c ≠ ':' := by
  have htchar := List.all_eq_true.mp h.2
  refine ⟨fun b hb => (ascii_of_isTchar (htchar b hb)).1, fun c hc => ?_⟩
  obtain ⟨b, hb, rfl⟩ := List.mem_map.mp hc
  exact (ascii_of_isTchar (htchar b hb)).2

theorem trim_token {name : Bytes} (h : IsToken name) : trim (asciiChars name) = asciiChars name :=
  trim_of_none fun c hc => ((token_facts h).2 c hc).1

/-- A line with a token and a colon in front is a name and a value. -/
theorem splitOnce_line {name : Bytes} (h : IsToken name) (value : Bytes) :
    trim (fromUtf8Lossy (name ++ 58 :: value)) ≠ [] ∧
    splitOnce ':' (trim (fromUtf8Lossy (name ++ 58 :: value))) =
      some (asciiChars name, trimEnd (fromUtf8Lossy value)) := by
  obtain ⟨hascii, hchars⟩ := token_facts h
  have htext : fromUtf8Lossy (name ++ 58 :: value) =
      asciiChars name ++ ':' :: fromUtf8Lossy value := by
    rw [fromUtf8Lossy_ascii_append hascii]
    exact congrArg _ (fromUtf8Lossy_append (b := 58) (by decide) [] _)
  have hfront : (asciiChars name ++ ':' :: fromUtf8Lossy value).dropWhile isWhitespace =
      asciiChars name ++ ':' :: fromUtf8Lossy value := by
    cases hname : asciiChars name with
    | nil => exact absurd (List.map_eq_nil_iff.mp hname) h.1
    | cons c rest =>
      rw [hname] at hchars
      simp [(hchars c (by simp)).1]
  have htrim : trim (fromUtf8Lossy (name ++ 58 :: value)) =
      asciiChars name ++ ':' :: trimEnd (fromUtf8Lossy value) := by
    show trimEnd _ = _
    rw [htext, hfront, trimEnd_append_cons (by decide)]
  have hcolon : ':' ∉ asciiChars name := fun hmem => (hchars _ hmem).2 rfl
  rw [htrim]
  exact ⟨by simp, splitOnce_append hcolon _⟩

variable {toLowercase : Str → Str}

theorem parseHeaderLines_field (field : Field) (framing : HttpResponseFraming) (rest : List Str) :
    parseHeaderLines toLowercase framing (fromUtf8Lossy field.bytes :: rest) = (do
      let framing ← parseField toLowercase (asciiChars field.name)
        (trim (fromUtf8Lossy field.value)) framing
      parseHeaderLines toLowercase framing rest) := by
  obtain ⟨hne, hsplit⟩ := splitOnce_line field.isToken field.value
  rw [Field.bytes, parseHeaderLines]
  simp only [if_neg hne, hsplit, trim_token field.isToken, trim_trimEnd]

/-- A length is read as its digits. -/
theorem trim_length {n : Nat} {field : Field} (h : HasLength n field) (hn : n ≤ usizeMax) :
    parseUnsigned usizeMax (trim (fromUtf8Lossy field.value)) = some n := by
  obtain ⟨lead, digits, trail, hlead, htrail, hne, hdigits, rfl, hvalue⟩ := h
  have htext : fromUtf8Lossy field.value =
      asciiChars lead ++ (asciiChars digits ++ asciiChars trail) := by
    have hend := fromUtf8Lossy_ascii_append htrail.ascii []
    rw [List.append_nil] at hend
    rw [hvalue, List.append_assoc, fromUtf8Lossy_ascii_append hlead.ascii,
      fromUtf8Lossy_ascii_append (ascii_of_digits hdigits), hend]
    exact congrArg _ (congrArg _ (List.append_nil _))
  have hwhite : ∀ c ∈ asciiChars digits, isWhitespace c = false :=
    fun c hc => isWhitespace_of_isDigit (List.all_eq_true.mp hdigits c hc)
  rw [htext, trim_blanks_append fun c hc => (hlead.isWhitespace c hc).1,
    trim_append fun c hc => (htrail.isWhitespace c hc).1, trim_of_none hwhite]
  exact parseUnsigned_digits (by simpa [asciiChars] using hne) hdigits hn

/-- A name is at most one of the names that are looked for. -/
theorem not_closes {field : Field} (h : isNamed "content-length" field = true) :
    closes field = false := by
  unfold closes
  rw [Bool.and_eq_false_iff]
  left
  unfold isNamed eqIgnoreAsciiCase at h ⊢
  rw [beq_iff_eq.mp h]
  decide

/-- What a field of a well-formed head says, with the length `n`. -/
def withField (n : Nat) (framing : HttpResponseFraming) (field : Field) : HttpResponseFraming where
  contentLength := if isNamed "content-length" field then some n else framing.contentLength
  chunked := framing.chunked
  connectionClose := framing.connectionClose || closes field

theorem parseField_ok {n : Nat} (hn : n ≤ usizeMax) {field : Field} {framing : HttpResponseFraming}
    (hlength : isNamed "content-length" field = true → HasLength n field)
    (hcoding : isNamed "transfer-encoding" field = false)
    (hframing : framing.contentLength = none ∨ framing.contentLength = some n) :
    parseField toLowercase (asciiChars field.name) (trim (fromUtf8Lossy field.value)) framing =
      .ok (withField n framing field) := by
  unfold parseField withField
  by_cases hnamed : isNamed "content-length" field = true
  · have hnamed' :
        eqIgnoreAsciiCase (asciiChars field.name) "content-length".toList = true := hnamed
    rw [if_pos hnamed', if_pos hnamed, trim_length (hlength hnamed) hn, not_closes hnamed,
      Bool.or_false]
    rcases hframing with hnone | hsome
    · simp only [hnone]
    · simp only [hsome, ne_eq, not_true_eq_false, if_false]
  · have hnamed' :
        ¬ eqIgnoreAsciiCase (asciiChars field.name) "content-length".toList = true := hnamed
    have hcoding' :
        ¬ eqIgnoreAsciiCase (asciiChars field.name) "transfer-encoding".toList = true := by
      rw [← isNamed, hcoding]
      decide
    rw [if_neg hnamed', if_neg hnamed, if_neg hcoding']
    by_cases hclose : closes field = true
    · rw [hclose, Bool.or_true]
      exact if_pos hclose
    · rw [Bool.eq_false_iff.mpr hclose, Bool.or_false]
      exact if_neg hclose

theorem parseHeaderLines_ok {n : Nat} (hn : n ≤ usizeMax) {fields : List Field}
    (hlengths : ∀ field ∈ fields, isNamed "content-length" field = true → HasLength n field)
    (hcoding : ∀ field ∈ fields, isNamed "transfer-encoding" field = false)
    {framing : HttpResponseFraming}
    (hframing : framing.contentLength = none ∨ framing.contentLength = some n) :
    parseHeaderLines toLowercase framing
        (fields.map (fun field => fromUtf8Lossy field.bytes) ++ [[]]) =
      .ok (fields.foldl (withField n) framing) := by
  induction fields generalizing framing with
  | nil => rfl
  | cons field fields ih =>
    rw [List.map_cons, List.cons_append, parseHeaderLines_field,
      parseField_ok hn (hlengths field (by simp)) (hcoding field (by simp)) hframing]
    have hframing' : (withField n framing field).contentLength = none ∨
        (withField n framing field).contentLength = some n := by
      unfold withField
      split
      · exact .inr rfl
      · exact hframing
    exact ih (fun f hf => hlengths f (by simp [hf]))
      (fun f hf => hcoding f (by simp [hf])) hframing'

/-- What all fields together say. -/
theorem foldl_withField (n : Nat) (fields : List Field) (framing : HttpResponseFraming) :
    (fields.foldl (withField n) framing).contentLength =
        (if fields.any (isNamed "content-length") then some n else framing.contentLength) ∧
      (fields.foldl (withField n) framing).chunked = framing.chunked ∧
      (fields.foldl (withField n) framing).connectionClose =
        (framing.connectionClose || fields.any closes) := by
  induction fields generalizing framing with
  | nil => simp
  | cons field fields ih =>
    obtain ⟨hlength, hchunked, hclose⟩ := ih (withField n framing field)
    rw [List.foldl_cons, hlength, hchunked, hclose, List.any_cons, List.any_cons]
    refine ⟨?_, rfl, Bool.or_assoc _ _ _⟩
    by_cases hnamed : isNamed "content-length" field = true
    · simp [withField, hnamed]
    · simp [withField, hnamed]

/-! ### Heads -/

theorem parse_framing {n : Nat} (hn : n ≤ usizeMax) {head : ResponseHead}
    (hlengths : ∀ field ∈ head.fields, isNamed "content-length" field = true → HasLength n field)
    (hcoding : ∀ field ∈ head.fields, isNamed "transfer-encoding" field = false) :
    parseHttpResponseFraming toLowercase (fromUtf8Lossy head.bytes) =
      .ok ⟨if head.fields.any (isNamed "content-length") then some n else none, false,
        head.fields.any closes⟩ := by
  obtain ⟨hlength, hchunked, hclose⟩ := foldl_withField n head.fields ⟨none, false, false⟩
  unfold parseHttpResponseFraming
  rw [lines_head, List.tail_cons, parseHeaderLines_ok hn hlengths hcoding (.inl rfl)]
  generalize head.fields.foldl (withField n) ⟨none, false, false⟩ =
    framing at hlength hchunked hclose ⊢
  obtain ⟨contentLength, chunked, connectionClose⟩ := framing
  simp only at hlength hchunked hclose
  subst hlength hchunked hclose
  simp [bind, Except.bind]

/-- The result of parsing a head that is there in full. -/
def parsed (head : ResponseHead) (contentLength : Option Nat) (behind : Bytes) :
    FramedHttpResponseHead where
  headerBytes := head.bytes
  bodyPrefix := if head.status < 200 then [] else behind
  statusCode := head.status
  contentLength := contentLength
  chunked := false
  connectionClose := head.fields.any closes
  httpVersion := head.version
  bodyEncoding := bodyEncodingOf ⟨contentLength, false, head.fields.any closes⟩ head.version

/-- A head at the front of the buffer is found, whatever follows it. -/
theorem tryParse_complete {n maxHeaderBytes : Nat} (hn : n ≤ usizeMax) {head : ResponseHead}
    (hlengths : ∀ field ∈ head.fields, isNamed "content-length" field = true → HasLength n field)
    (hcoding : ∀ field ∈ head.fields, isNamed "transfer-encoding" field = false)
    (hmax : head.bytes.length ≤ maxHeaderBytes) (behind : Bytes) :
    tryParseHttpResponseHead toLowercase (head.bytes ++ behind) maxHeaderBytes =
      .ok (some (parsed head
        (if head.fields.any (isNamed "content-length") then some n else none) behind,
        head.bytes.length)) := by
  obtain ⟨pos, hpos, htake, hlength⟩ :=
    (endsFirst_head head).position_eq (by decide) (List.prefix_append head.bytes behind)
  have hend : pos + 4 = head.bytes.length := hlength
  unfold tryParseHttpResponseHead
  rw [hpos]
  simp only [hend, List.take_left, List.drop_left]
  rw [if_neg (Nat.not_lt.mpr hmax), lines_head, List.head?_cons, Option.getD_some, parse_statusLine,
    parse_framing hn hlengths hcoding]
  rfl

/-- Before the head is complete, nothing is found. -/
theorem tryParse_incomplete {maxHeaderBytes : Nat} {head : ResponseHead} {buffer : Bytes}
    (h : buffer <+: head.bytes) (hlt : buffer.length < head.bytes.length) :
    tryParseHttpResponseHead toLowercase buffer maxHeaderBytes = .ok none := by
  unfold tryParseHttpResponseHead
  rw [(endsFirst_head head).position_eq_none (by decide) h hlt]

/-! ### Sequences -/

/-- More of the stream is moved into a buffer that holds only a part of a head. -/
theorem responseSequenceLoop_read {maxHeaderBytes fuel : Nat} {head : ResponseHead}
    {buffer rest : Bytes} {source : Source} (hclean : source.Clean)
    (hstream : buffer ++ source.bytes = head.bytes ++ rest)
    (hlt : buffer.length < head.bytes.length) (hmax : head.bytes.length ≤ maxHeaderBytes) :
    ∃ got source', got ≠ [] ∧ source'.Clean ∧ source.bytes = got ++ source'.bytes ∧
      source.size = got.length + source'.size ∧ (buffer ++ got).length ≤ maxHeaderBytes ∧
      responseSequenceLoop toLowercase maxHeaderBytes (fuel + 1) buffer source =
        responseSequenceLoop toLowercase maxHeaderBytes fuel (buffer ++ got) source' := by
  have hpart : buffer <+: head.bytes :=
    List.prefix_of_prefix_length_le (hstream ▸ List.prefix_append _ _) (List.prefix_append _ _)
      (Nat.le_of_lt hlt)
  have havailable : source.available ≠ [] := by
    intro hnil
    rw [Source.available_of_clean hclean] at hnil
    have := congrArg List.length hstream
    simp only [hnil, List.append_nil, List.length_append] at this
    omega
  obtain ⟨first, more, source', hread, hmore, -⟩ :=
    Source.read_available havailable (min (maxHeaderBytes - buffer.length) 4096 - 1)
  refine ⟨first :: more, source', by simp, ?_, (Source.bytes_read_ok hread).1,
    Source.size_read_ok hread, ?_, ?_⟩
  · have := hclean.read (min (maxHeaderBytes - buffer.length) 4096 - 1)
    rwa [hread] at this
  · simp only [List.length_append, List.length_cons]
    omega
  · rw [responseSequenceLoop, tryParse_incomplete hpart hlt]
    simp only
    rw [if_neg (by omega), hread]
    simp

variable {final : ResponseHead} {body : Bytes}

variable (toLowercase) in
/-- What is left of the buffer and the stream is a sequence of whole responses. -/
theorem responseSequenceLoop_spec {maxHeaderBytes : Nat} (hn : body.length ≤ usizeMax)
    (hfinal : FixedLength body.length final) (hmax : final.bytes.length ≤ maxHeaderBytes)
    {heads : List ResponseHead} (hheads : ∀ head ∈ heads, Informational head)
    (hmaxs : ∀ head ∈ heads, head.bytes.length ≤ maxHeaderBytes) {fuel : Nat} (buffer : Bytes)
    {source : Source} (hclean : source.Clean)
    (hstream : buffer ++ source.bytes =
      heads.flatMap ResponseHead.bytes ++ (final.bytes ++ body))
    (hfuel : 2 * source.size + buffer.length < fuel) :
    ∃ bodyPrefix source', source'.Clean ∧ bodyPrefix ++ source'.bytes = body ∧
      responseSequenceLoop toLowercase maxHeaderBytes fuel buffer source =
        (.ok (framed body.length final bodyPrefix), source') := by
  induction fuel generalizing heads buffer source with
  | zero => omega
  | succ fuel ih =>
    cases heads with
    | nil =>
      rw [List.flatMap_nil, List.nil_append] at hstream
      by_cases hlt : buffer.length < final.bytes.length
      · obtain ⟨got, source', hne, hclean', hbytes, hsize, -, hloop⟩ :=
          responseSequenceLoop_read hclean hstream hlt hmax
        have hpos := List.length_pos_iff.mpr hne
        rw [hloop]
        refine ih hheads hmaxs _ hclean' ?_ (by rw [List.length_append]; omega)
        rw [List.append_assoc, ← hbytes, hstream]
        rfl
      · obtain ⟨behind, rfl⟩ : final.bytes <+: buffer :=
          List.prefix_of_prefix_length_le (List.prefix_append _ _)
            (hstream ▸ List.prefix_append _ _) (Nat.not_lt.mp hlt)
        rw [List.append_assoc, List.append_cancel_left_eq] at hstream
        refine ⟨behind, source, hclean, hstream, ?_⟩
        have hlong := hfinal.status
        rw [responseSequenceLoop, tryParse_complete hn hfinal.lengths hfinal.noCoding hmax]
        simp only [parsed, List.any_eq_true.mpr hfinal.length, if_true, List.drop_left]
        rw [if_neg (by omega), if_pos hlong, finalHead, if_neg (by simp [hfinal.hasBody])]
        rfl
    | cons head heads =>
      have hinfo := hheads head (by simp)
      have hmax' := hmaxs head (by simp)
      have hstream' : buffer ++ source.bytes =
          head.bytes ++ (heads.flatMap ResponseHead.bytes ++ (final.bytes ++ body)) := by
        rw [hstream, List.flatMap_cons, List.append_assoc]
      by_cases hlt : buffer.length < head.bytes.length
      · obtain ⟨got, source', hne, hclean', hbytes, hsize, -, hloop⟩ :=
          responseSequenceLoop_read hclean hstream' hlt hmax'
        have hpos := List.length_pos_iff.mpr hne
        rw [hloop]
        refine ih hheads hmaxs _ hclean' ?_ (by rw [List.length_append]; omega)
        rw [List.append_assoc, ← hbytes, hstream]
      · obtain ⟨behind, rfl⟩ : head.bytes <+: buffer :=
          List.prefix_of_prefix_length_le (List.prefix_append _ _)
            (hstream' ▸ List.prefix_append _ _) (Nat.not_lt.mp hlt)
        rw [List.append_assoc, List.append_cancel_left_eq] at hstream'
        have hshort := hinfo.status
        have hpos : 0 < head.bytes.length := by simp [ResponseHead.bytes, crlf]
        have hloop : responseSequenceLoop toLowercase maxHeaderBytes (fuel + 1)
            (head.bytes ++ behind) source =
            responseSequenceLoop toLowercase maxHeaderBytes fuel behind source := by
          have hlengths : ∀ field ∈ head.fields, isNamed "content-length" field = true →
              HasLength 0 field :=
            fun field hfield hnamed => by simp [hinfo.noLength field hfield] at hnamed
          rw [responseSequenceLoop, tryParse_complete (Nat.zero_le _) hlengths hinfo.noCoding hmax']
          simp only [parsed, List.drop_left]
          rw [if_neg hinfo.noUpgrade, if_neg (by omega)]
        rw [List.length_append] at hfuel
        rw [hloop]
        exact ih (fun h hh => hheads h (by simp [hh])) (fun h hh => hmaxs h (by simp [hh])) behind
          hclean hstream' (by omega)

/-! ### Bodies -/

theorem fixedBodyLoop_spec {remaining fuel : Nat} (totalRead : Nat) (got : Bytes) {source : Source}
    (hclean : source.Clean) (hleft : totalRead + source.bytes.length = remaining)
    (hfuel : remaining - totalRead ≤ fuel) :
    ∃ source', fixedBodyLoop remaining fuel totalRead got source =
      (.ok (got ++ source.bytes), source') := by
  induction fuel generalizing totalRead got source with
  | zero =>
    have hnil : source.bytes = [] := List.length_eq_zero_iff.mp (by omega)
    exact ⟨source, by simp [fixedBodyLoop, hnil]⟩
  | succ fuel ih =>
    unfold fixedBodyLoop
    split
    · next hdone =>
      have hnil : source.bytes = [] := List.length_eq_zero_iff.mp (by omega)
      exact ⟨source, by simp [hnil]⟩
    · next hmore =>
      have havailable : source.available ≠ [] := by
        rw [Source.available_of_clean hclean]
        intro hnil
        rw [hnil] at hleft
        simp at hleft
        omega
      obtain ⟨first, more, source', hread, -, -⟩ :=
        Source.read_available havailable (min (remaining - totalRead) 8192 - 1)
      have hclean' := hclean.read (min (remaining - totalRead) 8192 - 1)
      rw [hread] at hclean'
      have hbytes := (Source.bytes_read_ok hread).1
      have hlength := congrArg List.length hbytes
      simp only [List.length_append, List.length_cons] at hlength
      simp only [hread, reduceCtorEq, if_false]
      obtain ⟨source'', hloop⟩ := ih (totalRead + (first :: more).length) (got ++ first :: more)
        hclean' (by simp only [List.length_cons]; omega) (by simp only [List.length_cons]; omega)
      exact ⟨source'', by rw [hloop, hbytes, List.append_assoc]⟩

theorem readFixed_spec {bodyPrefix body : Bytes} {maxBodyBytes : Nat} {source : Source}
    (hclean : source.Clean) (hrest : bodyPrefix ++ source.bytes = body)
    (hmax : body.length ≤ maxBodyBytes) :
    ∃ source', readFixedHttpResponseBody source bodyPrefix body.length maxBodyBytes =
      (.ok body, source') := by
  have hlength := congrArg List.length hrest
  rw [List.length_append] at hlength
  unfold readFixedHttpResponseBody
  rw [if_neg (by omega), if_neg (by omega)]
  by_cases hnone : body.length - bodyPrefix.length = 0
  · have hnil : source.bytes = [] := List.length_eq_zero_iff.mp (by omega)
    rw [hnil, List.append_nil] at hrest
    exact ⟨source, by simp [hrest]⟩
  · have hleft : 0 + source.bytes.length = body.length - bodyPrefix.length := by omega
    obtain ⟨source', hloop⟩ := fixedBodyLoop_spec 0 bodyPrefix hclean hleft (Nat.le_refl _)
    rw [hrest] at hloop
    exact ⟨source', (if_neg hnone).trans hloop⟩

/-- **Reading a response does not depend on packet boundaries.** -/
theorem response_independent_of_reads (toLowercase : Str → Str) (heads : List ResponseHead)
    (final : ResponseHead) (body : Bytes) (source : Source) (maxHeaderBytes : Nat)
    (maxBodyBytes : UInt64) (hheads : ∀ head ∈ heads, Informational head)
    (hfinal : FixedLength body.length final)
    (hmaxs : ∀ head ∈ final :: heads, head.bytes.length ≤ maxHeaderBytes)
    (hbody : body.length ≤ maxBodyBytes.toNat) (hclean : source.Clean)
    (hstream : source.bytes = heads.flatMap ResponseHead.bytes ++ (final.bytes ++ body)) :
    ∃ bodyPrefix source' source'',
      readHttpResponseSequence toLowercase source maxHeaderBytes =
        (.ok (framed body.length final bodyPrefix), source') ∧
      readFixedHttpResponseBody source' bodyPrefix body.length maxBodyBytes.toNat =
        (.ok body, source'') := by
  have hn : body.length ≤ usizeMax := by
    have := maxBodyBytes.toNat_lt
    unfold usizeMax
    omega
  obtain ⟨bodyPrefix, source', hclean', hrest, hsequence⟩ :=
    responseSequenceLoop_spec toLowercase hn hfinal (hmaxs final (by simp)) hheads
      (fun head hhead => hmaxs head (by simp [hhead])) [] hclean hstream
      (Nat.lt_succ_self (2 * source.size))
  obtain ⟨source'', hfixed⟩ := readFixed_spec hclean' hrest hbody
  exact ⟨bodyPrefix, source', source'', hsequence, hfixed⟩

/-- `HTTP/1.1 103 ` without fields. -/
def hintsHead : ResponseHead where
  version := .http11
  status := 103
  isStatus := by decide
  reason := []
  isReason := rfl
  fields := []

/-- `Content-Length: 2`. -/
def lengthField : Field where
  name := [67, 111, 110, 116, 101, 110, 116, 45, 76, 101, 110, 103, 116, 104]
  value := [32, 50]
  isToken := ⟨by decide, by decide⟩
  isValue := by decide

/-- `HTTP/1.1 200 OK` with a body of two bytes. -/
def okHead : ResponseHead where
  version := .http11
  status := 200
  isStatus := by decide
  reason := [79, 75]
  isReason := by decide
  fields := [lengthField]

theorem hintsHead_informational : Informational hintsHead where
  status := by decide
  noUpgrade := by decide
  noLength := by simp [hintsHead]
  noCoding := by simp [hintsHead]

theorem okHead_fixedLength : FixedLength 2 okHead where
  status := by decide
  hasBody := by decide
  length := ⟨lengthField, List.mem_singleton.mpr rfl, by decide⟩
  lengths := by
    intro field hfield _
    obtain rfl := List.mem_singleton.mp hfield
    exact ⟨[32], [50], [], by unfold IsBlanks; decide, by unfold IsBlanks; decide, by decide,
      by decide, by decide, rfl⟩
  noCoding := by
    intro field hfield
    obtain rfl := List.mem_singleton.mp hfield
    decide

/-- A response that arrives in three pieces, with the second one across the end of
    the informational head. -/
theorem response_independent_of_reads_threePieces :
    ∃ bodyPrefix source' source'',
      readHttpResponseSequence id
        (Source.ofBytes (hintsHead.bytes.take 7) ++
          (Source.ofBytes (hintsHead.bytes.drop 7 ++ okHead.bytes.take 20) ++
            Source.ofBytes (okHead.bytes.drop 20 ++ [104, 105]))) 100 =
        (.ok (framed 2 okHead bodyPrefix), source') ∧
      readFixedHttpResponseBody source' bodyPrefix 2 (1000 : UInt64).toNat =
        (.ok [104, 105], source'') := by
  refine response_independent_of_reads id [hintsHead] okHead [104, 105] _ 100 1000 ?_
    okHead_fixedLength ?_ (by decide) ?_ (by decide)
  · intro head hhead
    obtain rfl := List.mem_singleton.mp hhead
    exact hintsHead_informational
  · intro head hhead
    simp only [List.mem_cons, List.not_mem_nil, or_false] at hhead
    rcases hhead with rfl | rfl <;> decide
  · exact (Source.clean_ofBytes _).ofBytes_append _ |>.ofBytes_append _

end Synvoid.Mesh
