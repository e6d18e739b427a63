import Synvoid.Dns.Transfer
import Synvoid.Dns.WellFormedRr
import Synvoid.Framework.DnsMessage

/-! # Full transfers on the wire

    The messages of an AXFR, read by RFC 1035, should be the zone: its SOA
    record first and last, and between them every other record with its owner,
    type, TTL and data (`TransfersZone`).

    The encoder cuts the text of an SOA value at its dots, as if it were a
    name, and ends it without a zero byte. The numbers at the end of the text
    then stand where the reader expects them in binary, and these bytes cannot
    be both: no transfer of a zone with an SOA record is read back
    (`not_transfersZone`).
-/

namespace Synvoid.Dns

open Synvoid.Framework

/-! ## Section 1: The records of a zone -/

/-- The labels of a name, as bytes. -/
def labelsOf (name : Str) : List Bytes := (labels name).map utf8

/-- The data of a record by RFC 1035; `none` if its value is not one of its type. -/
def recordData (record : DnsZoneRecord) : Option RecordData :=
  match record.recordType with
  | .a => (parseIpv4 record.value).map .address
  | .aaaa => (parseIpv6 record.value).map .address
  | .ns | .cname | .ptr => some (.name (labelsOf record.value))
  | .mx =>
      let priority := record.priority.getD 10
      if priority ≤ 65535 then some (.mx priority.toUInt16 (labelsOf record.value)) else none
  | .txt => some (.txt (utf8 record.value))
  | .other 33 =>
      match splitWhitespace record.value with
      | [priority, weight, port, target] => do
          let priority ← parseU16 priority
          let weight ← parseU16 weight
          let port ← parseU16 port
          return .srv priority weight port (labelsOf target)
      | _ => none
  | .soa =>
      match splitWhitespace record.value with
      | [mname, rname, serial, refresh, retry, expire, minimum] => do
          let serial ← parseU32 serial
          let refresh ← parseU32 refresh
          let retry ← parseU32 retry
          let expire ← parseU32 expire
          let minimum ← parseU32 minimum
          return .soa (labelsOf mname) (labelsOf rname) serial refresh retry expire minimum
      | _ => none
  | _ => none

/-- A record as a reader of a message sees it. -/
structure TransferredRecord where
  owner : List Bytes
  rrType : UInt16
  ttl : UInt32
  data : RecordData
  deriving DecidableEq

/-- What a reader should see of a record that the zone keeps under `name`. -/
def transferred (origin name : Str) (record : DnsZoneRecord) : Option TransferredRecord :=
  (recordData record).map fun data =>
    ⟨labelsOf (fullName origin name), record.recordType.code, record.ttl, data⟩

/-- All records but the SOA. -/
def otherRecords (origin : Str) (records : ZoneRecords) : List (Option TransferredRecord) :=
  (records.entries.filter fun entry => entry.1.2 ≠ .soa).flatMap fun entry =>
    entry.2.map (transferred origin entry.1.1)

/-- A record of a message, of class IN, is read as this one. -/
def ReadAs (m : Bytes) (record : DnsRecord) (seen : TransferredRecord) : Prop :=
  seen.owner = record.owner ∧ seen.rrType = record.rrType ∧ record.rrClass = 1 ∧
    seen.ttl = record.ttl ∧ DataAt m record seen.data

/-- A well-formed message whose answers are read as these records. -/
def AnswersOf (m : Bytes) (seen : List TransferredRecord) : Prop :=
  ∃ answers, IsMessage m answers ∧ List.Forall₂ (ReadAs m) answers seen

/-- The messages are well formed, and their answers are the SOA record, the other records of
    the zone in some order, and the SOA record again. -/
def TransfersZone (origin : Str) (records : ZoneRecords) (soa : DnsZoneRecord)
    (messages : List Bytes) : Prop :=
  ∃ seen : List (List TransferredRecord), List.Forall₂ AnswersOf messages seen ∧
    ∃ soaSeen others, transferred origin apex soa = some soaSeen ∧
      seen.flatten = soaSeen :: others ++ [soaSeen] ∧
      (others.map some).Perm (otherRecords origin records)

/-! ## Section 2: Values of SOA records -/

/-- A value in the format of master files: seven fields between spaces and tabs, two names and
    five numbers; RDATA has at most 65535 bytes. -/
structure ValidSoa (value : Str) : Prop where
  fields : ∃ mname rname serial refresh retry expire minimum,
    splitWhitespace value = [mname, rname, serial, refresh, retry, expire, minimum] ∧
    (∀ label ∈ labels mname, byteLen label ≤ 63) ∧ (∀ label ∈ labels rname, byteLen label ≤ 63) ∧
    (parseU32 serial).isSome ∧ (parseU32 refresh).isSome ∧ (parseU32 retry).isSome ∧
    (parseU32 expire).isSome ∧ (parseU32 minimum).isSome
  blanks : ∀ c ∈ value, isWhitespace c = true → c = ' ' ∨ c = '\t'
  fits : byteLen value < 65535

/-- The characters of numbers and of the blanks between them. -/
def NumberChar (c : Char) : Prop := c = ' ' ∨ c = '\t' ∨ c = '+' ∨ c.isDigit = true

theorem NumberChar.range {c : Char} (h : NumberChar c) : 9 ≤ c.toNat ∧ c.toNat ≤ 57 := by
  rcases h with rfl | rfl | rfl | hdigit
  · decide
  · decide
  · decide
  · obtain ⟨hlow, hhigh⟩ : '0'.toNat ≤ c.toNat ∧ c.toNat ≤ '9'.toNat :=
      Char.isDigit_iff_toNat.mp hdigit
    exact ⟨Nat.le_trans (by decide) hlow, hhigh⟩

theorem NumberChar.ne_dot {c : Char} (h : NumberChar c) : c ≠ '.' := by
  rintro rfl
  revert h
  unfold NumberChar
  decide

/-- A number has at least as many characters as its value has digits. -/
theorem numberChars_of_parseU32 {s : Str} {n : UInt32} (h : parseU32 s = some n) :
    (∀ c ∈ s, NumberChar c) ∧ n.toNat < 10 ^ s.length := by
  obtain ⟨value, hvalue, rfl⟩ := Option.map_eq_some_iff.mp h
  unfold parseUnsigned at hvalue
  dsimp only at hvalue
  have hdigits : ∀ {digits : Str}, digits.all Char.isDigit = true → ∀ c ∈ digits, NumberChar c :=
    fun hall c hc => .inr (.inr (.inr (List.all_eq_true.mp hall c hc)))
  have hlt : ∀ {digits : Str}, digits.all Char.isDigit = true →
      (UInt32.ofNat (decimalValue digits)).toNat < 10 ^ digits.length := fun hall =>
    Nat.lt_of_le_of_lt (by rw [UInt32.toNat_ofNat']; exact Nat.mod_le _ _) (decimalValue_lt hall)
  split at hvalue
  · next rest =>
    split at hvalue
    · next hall =>
      obtain rfl := Option.some.inj hvalue
      refine ⟨List.forall_mem_cons.mpr ⟨.inr (.inr (.inl rfl)), hdigits hall.2.1⟩, ?_⟩
      exact Nat.lt_of_lt_of_le (hlt hall.2.1)
        (Nat.pow_le_pow_right (by decide) (Nat.le_succ rest.length))
    · cases hvalue
  · split at hvalue
    · next hall =>
      obtain rfl := Option.some.inj hvalue
      exact ⟨hdigits hall.2.1, hlt hall.2.1⟩
    · cases hvalue

/-- The end of a value: five numbers, each behind a blank. -/
structure NumbersText (text serial refresh retry expire minimum : Str) : Prop where
  chars : ∀ c ∈ text, NumberChar c
  fields : splitWhitespace text = [serial, refresh, retry, expire, minimum]
  blank : ∀ c ∈ text.head?, isWhitespace c = true

/-- An SOA value ends with its numbers. -/
theorem ValidSoa.exists_numbersText {value mname rname serial refresh retry expire minimum : Str}
    (h : ValidSoa value)
    (hfields : splitWhitespace value =
      [mname, rname, serial, refresh, retry, expire, minimum]) :
    ∃ front text, value = front ++ text ∧ NumbersText text serial refresh retry expire minimum := by
  obtain ⟨front, rest, rfl, hrest, -⟩ := exists_of_splitWhitespace_cons hfields
  obtain ⟨front', text, rfl, htext, hblank⟩ := exists_of_splitWhitespace_cons hrest
  refine ⟨front ++ front', text, by simp, ?_, htext, hblank⟩
  intro c hc
  obtain ⟨_, _, _, _, _, _, _, hsame, -, -, h₁, h₂, h₃, h₄, h₅⟩ := h.fields
  simp only [hfields, List.cons.injEq, and_true] at hsame
  obtain ⟨rfl, rfl, rfl, rfl, rfl, rfl, rfl⟩ := hsame
  rcases mem_splitWhitespace hc with hwhite | ⟨part, hpart, hmem⟩
  · rcases h.blanks c (by simp [hc]) hwhite with rfl | rfl
    · exact .inl rfl
    · exact .inr (.inl rfl)
  · have hnumber : (parseU32 part).isSome := by
      rw [htext] at hpart
      simp only [List.mem_cons, List.not_mem_nil, or_false] at hpart
      rcases hpart with rfl | rfl | rfl | rfl | rfl <;> assumption
    obtain ⟨n, hn⟩ := Option.isSome_iff_exists.mp hnumber
    exact (numberChars_of_parseU32 hn).1 c hmem

namespace NumbersText

variable {text serial refresh retry expire minimum : Str}
  (h : NumbersText text serial refresh retry expire minimum)
include h

/-- The bytes of the text are its characters. -/
theorem utf8_eq : utf8 text = text.map fun c => UInt8.ofNat c.toNat :=
  utf8_of_ascii fun c hc => Nat.lt_of_le_of_lt (h.chars c hc).range.2 (by decide)

theorem byteLen_eq : byteLen text = text.length := by
  rw [byteLen, h.utf8_eq, List.length_map]

theorem byte_range {b : UInt8} (hb : b ∈ utf8 text) : 9 ≤ b.toNat ∧ b.toNat ≤ 57 := by
  rw [h.utf8_eq] at hb
  obtain ⟨c, hc, rfl⟩ := List.mem_map.mp hb
  have hrange := (h.chars c hc).range
  rw [UInt8.toNat_ofNat', Nat.mod_eq_of_lt (by omega)]
  exact hrange

/-- The numbers and a blank before each. -/
theorem length_ge :
    serial.length + refresh.length + retry.length + expire.length + minimum.length + 5 ≤
      text.length := by
  rw [← h.byteLen_eq]
  cases htext : text with
  | nil =>
    have hnone := h.fields
    rw [htext] at hnone
    cases hnone
  | cons c rest =>
    have hwhite : isWhitespace c = true := h.blank c (by rw [htext]; rfl)
    have hsum := byteLen_splitWhitespace rest
    have hrest : splitWhitespace rest = [serial, refresh, retry, expire, minimum] := by
      rw [← splitWhitespace_blank_cons hwhite, ← htext]
      exact h.fields
    have hc := c.utf8Size_pos
    have hlengths := fun s : Str => length_le_byteLen s
    rw [hrest] at hsum
    simp only [List.map_cons, List.map_nil, List.sum_cons, List.sum_nil] at hsum
    have h₁ := hlengths serial
    have h₂ := hlengths refresh
    have h₃ := hlengths retry
    have h₄ := hlengths expire
    have h₅ := hlengths minimum
    rw [byteLen_cons]
    omega

end NumbersText

/-! ## Section 3: The numbers are not in the text -/

/-- Four bytes of text are a large number. -/
theorem le_u32At {m : Bytes} {i : Nat} (h : 9 ≤ (byteAt m i).toNat) :
    100000000 ≤ (u32At m i).toNat := by
  have h₀ := (byteAt m i).toNat_lt
  have h₁ := (byteAt m (i + 1)).toNat_lt
  have h₂ := (byteAt m (i + 2)).toNat_lt
  have h₃ := (byteAt m (i + 3)).toNat_lt
  unfold u32At u32FromBe
  rw [UInt32.toNat_ofNat', Nat.mod_eq_of_lt (by omega)]
  omega

theorem le_length_of_parseU32 {s : Str} {n : UInt32} (h : parseU32 s = some n)
    (hn : 100000000 ≤ n.toNat) : 9 ≤ s.length := by
  by_contra hshort
  have hlt := (numberChars_of_parseU32 h).2
  have hpow : 10 ^ s.length ≤ 10 ^ 8 := Nat.pow_le_pow_right (by decide) (by omega)
  omega

/-- RDATA that ends with the text of the numbers is not SOA data with these numbers. The last
    eight bytes, read as two numbers, are large, so their texts are long; then the bytes before
    the five numbers are text as well, and no name ends there. -/
theorem not_dataAt_soa {m : Bytes} {record : DnsRecord}
    {text serial refresh retry expire minimum : Str}
    (htext : NumbersText text serial refresh retry expire minimum)
    (hbytes : ∀ i, record.stop ≤ i + text.length → i < record.stop →
      9 ≤ (byteAt m i).toNat ∧ (byteAt m i).toNat ≤ 57)
    {mname rname : List Bytes} {n₁ n₂ n₃ n₄ n₅ : UInt32} (hexpire : parseU32 expire = some n₄)
    (hminimum : parseU32 minimum = some n₅)
    (hserial : serial ≠ []) (hrefresh : refresh ≠ []) (hretry : retry ≠ []) :
    ¬ DataAt m record (.soa mname rname n₁ n₂ n₃ n₄ n₅) := by
  rintro ⟨-, mnameEnd, numbers, -, hrname, hstop, -, -, -, rfl, rfl⟩
  have hlength := htext.length_ge
  have h₁ := List.length_pos_of_ne_nil hserial
  have h₂ := List.length_pos_of_ne_nil hrefresh
  have h₃ := List.length_pos_of_ne_nil hretry
  have h₄ : expire.length ≠ 0 := by
    intro hzero
    rw [List.eq_nil_of_length_eq_zero hzero] at hexpire
    cases hexpire
  have h₅ : minimum.length ≠ 0 := by
    intro hzero
    rw [List.eq_nil_of_length_eq_zero hzero] at hminimum
    cases hminimum
  have hlong₅ := le_length_of_parseU32 hminimum
    (le_u32At (hbytes (numbers + 16) (by omega) (by omega)).1)
  have hlong₄ := le_length_of_parseU32 hexpire
    (le_u32At (hbytes (numbers + 12) (by omega) (by omega)).1)
  rcases hrname.ends with ⟨hle, -, hzero⟩ | ⟨hle, -, hpointer⟩
  · have hbyte := (hbytes (numbers - 1) (by omega) (by omega)).1
    rw [hzero] at hbyte
    exact absurd hbyte (by decide)
  · have hbyte := (hbytes (numbers - 2) (by omega) (by omega)).2
    omega

/-! ## Section 4: Reading a message -/

/-- The labels that `encode_name` writes. -/
theorem exists_wireName (name : Str) :
    ∃ ls, (∀ l ∈ ls, 1 ≤ l.length ∧ l.length ≤ 63) ∧ encodeName name = wireName ls :=
  isWireName_encodeName name

/-- The end of a name that `encode_name` has written. -/
theorem nameEnd_eq {front rest : Bytes} {name : Str} {ls : List Bytes} {stop : Nat}
    (h : NameAt (front ++ (encodeName name ++ rest)) front.length ls stop) :
    stop = front.length + (encodeName name).length := by
  obtain ⟨ls', hls', heq⟩ := exists_wireName name
  rw [heq] at h ⊢
  exact (h.unique (NameAt.of_wireName hls' front rest)).2

/-- The fields of a record behind an owner that `encode_name` has written. -/
theorem recordAt_inv {front rest : Bytes} {name : Str} {record : DnsRecord}
    (h : Framework.RecordAt (front ++ (encodeName name ++ rest)) front.length record) :
    record.rrType = u16At rest 0 ∧
      record.start = front.length + (encodeName name).length + 10 ∧
      record.stop = record.start + (u16At rest 8).toNat := by
  obtain ⟨nameEnd, hname, htype, -, -, hstart, hstop, -⟩ := h
  obtain rfl := nameEnd_eq hname
  have hfields : ∀ i, u16At (front ++ (encodeName name ++ rest))
      (front.length + (encodeName name).length + i) = u16At rest i := by
    intro i
    rw [Nat.add_assoc, u16At_append_right, u16At_append_right]
  have htype' := hfields 0
  have hlength := hfields 8
  rw [Nat.add_zero] at htype'
  exact ⟨htype.trans htype', hstart, by rw [hstop, hstart, hlength]⟩

/-- The counts of a header. -/
theorem transferHeader_counts (messageId : UInt16) (authoritative : Bool) (ancount : UInt16)
    (rest : Bytes) :
    let m := transferHeader messageId authoritative ancount ++ rest
    u16At m 4 = 1 ∧ u16At m 6 = ancount ∧ u16At m 8 = 0 ∧ u16At m 10 = 0 := by
  unfold transferHeader
  simp only [List.append_assoc]
  generalize buildResponseFlags authoritative false true false false 0 = flags
  refine ⟨?_, ?_, ?_, ?_⟩
  · simpa using u16At_flatMap_u16ToBe [messageId, flags] 1 _
  · simpa using u16At_flatMap_u16ToBe [messageId, flags, 1] ancount _
  · simpa using u16At_flatMap_u16ToBe [messageId, flags, 1, ancount] 0 _
  · simpa using u16At_flatMap_u16ToBe [messageId, flags, 1, ancount, 0] 0 rest

/-- The message of a question and what is behind it. -/
def IsResponse (m : Bytes) (qname : Str) (qtype count : UInt16) (body : Bytes) : Prop :=
  ∃ header tail : Bytes, header.length = 12 ∧ u16At header 4 = 1 ∧ u16At header 6 = count ∧
    m = header ++ (transferQuestion qname qtype ++ (body ++ tail))

/-- The answers of a response stand behind its question. -/
theorem IsResponse.answers {m body : Bytes} {qname : Str} {qtype count : UInt16}
    (hm : IsResponse m qname qtype count body) {answers : List DnsRecord}
    (h : IsMessage m answers) :
    ∃ front tail : Bytes, m = front ++ (body ++ tail) ∧ answers.length = count.toNat ∧
      ∃ stop, RecordsAt m front.length answers stop := by
  obtain ⟨header, tail, hheader, hqdcount, hancount, rfl⟩ := hm
  obtain ⟨-, answerStart, authorityStart, -, -, -, hquestions, hanswers, hcount, -⟩ := h
  have hfield : ∀ i, i < 11 → u16At (header ++ (transferQuestion qname qtype ++ (body ++ tail))) i =
      u16At header i := by
    intro i hi
    unfold u16At
    rw [byteAt_append_left (by omega), byteAt_append_left (by omega)]
  rw [hfield 4 (by decide), hqdcount] at hquestions
  rw [hfield 6 (by decide), hancount] at hcount
  refine ⟨header ++ transferQuestion qname qtype, tail, by simp, hcount, authorityStart, ?_⟩
  have hsplit : header ++ (transferQuestion qname qtype ++ (body ++ tail)) =
      header ++ (encodeName qname ++ (u16ToBe qtype ++ (u16ToBe 1 ++ (body ++ tail)))) := by
    simp [transferQuestion]
  -- one question, whose name is known
  obtain ⟨nameEnd, ls, hname, rfl⟩ : ∃ nameEnd ls,
      NameAt (header ++ (transferQuestion qname qtype ++ (body ++ tail))) 12 ls nameEnd ∧
        answerStart = nameEnd + 4 := by
    cases hquestions with
    | cons hname hlt hrest =>
      cases hrest with
      | nil => exact ⟨_, _, hname, rfl⟩
  rw [← hheader, hsplit] at hname
  have hstart : (header ++ transferQuestion qname qtype).length = nameEnd + 4 := by
    rw [nameEnd_eq hname]
    simp [transferQuestion]
    omega
  rwa [hstart]

/-! ## Section 5: The SOA message -/

/-- What the encoder writes for an SOA value ends with the text of the numbers. -/
theorem exists_encodeTargetParts (front : Str) {text : Str} (hne : text ≠ []) (hdot : '.' ∉ text) :
    ∃ before, encodeTargetParts (front ++ text) = before ++ utf8 text := by
  have hlast : ∀ b : Str, '.' ∉ b → labels (b ++ text) = [b ++ text] := by
    intro b hb
    rw [labels_of_no_dot (by simp [hb, hdot]), if_neg (by simp [hne])]
  have hparts : ∃ ls b, labels (front ++ text) = ls ++ [b ++ text] := by
    rcases exists_last_part front with hfront | ⟨a, b, rfl, hb⟩
    · exact ⟨[], front, hlast front hfront⟩
    · refine ⟨labels a, b, ?_⟩
      rw [List.append_assoc, List.cons_append, labels_append_dot, hlast b hb]
  obtain ⟨ls, b, hlabels⟩ := hparts
  refine ⟨encodeLabels ls ++ UInt8.ofNat (byteLen (b ++ text)) :: utf8 b, ?_⟩
  rw [encodeTargetParts, nameParts, if_neg (by simp [hlabels]), hlabels]
  simp [encodeLabel]

theorem length_encodeTargetParts (value : Str) :
    (encodeTargetParts value).length ≤ byteLen value + 1 := by
  unfold encodeTargetParts nameParts
  split
  · simp [encodeLabel]
  · exact length_encodeLabels_labels value

/-- The fields of an SOA record that is read as it should be. -/
theorem transferred_soa {origin : Str} {soa : DnsZoneRecord} {seen : TransferredRecord}
    (hvalid : ValidSoa soa.value) (hsoa : soa.recordType = .soa)
    (h : transferred origin apex soa = some seen) :
    ∃ mname rname serial refresh retry expire minimum, ∃ n₁ n₂ n₃ n₄ n₅,
      splitWhitespace soa.value = [mname, rname, serial, refresh, retry, expire, minimum] ∧
      parseU32 expire = some n₄ ∧ parseU32 minimum = some n₅ ∧
      seen.data = .soa (labelsOf mname) (labelsOf rname) n₁ n₂ n₃ n₄ n₅ := by
  obtain ⟨mname, rname, serial, refresh, retry, expire, minimum, hfields, -⟩ := hvalid.fields
  obtain ⟨data, hdata, rfl⟩ := Option.map_eq_some_iff.mp h
  simp only [recordData, hsoa, hfields, Option.bind_eq_bind, Option.bind_eq_some_iff] at hdata
  obtain ⟨n₁, -, n₂, -, n₃, -, n₄, h₄, n₅, h₅, hdata⟩ := hdata
  exact ⟨mname, rname, serial, refresh, retry, expire, minimum, n₁, n₂, n₃, n₄, n₅, hfields, h₄, h₅,
    (Option.some.inj hdata).symm⟩

/-- A message whose answer is an SOA record of the encoder is not read as that record. -/
theorem not_answersOf_soa {lib : TransferExternals} {m tail : Bytes} {qname origin : Str}
    {qtype count : UInt16} {soa : DnsZoneRecord} {seen : TransferredRecord}
    {more : List TransferredRecord} (hvalid : ValidSoa soa.value) (hsoa : soa.recordType = .soa)
    (hm : IsResponse m qname qtype count (axfrRr lib qname soa ++ tail))
    (hseen : transferred origin apex soa = some seen) : ¬ AnswersOf m (seen :: more) := by
  rintro ⟨answers, hmessage, hread⟩
  obtain ⟨front, rest, hm, -, stop, hrecords⟩ := hm.answers hmessage
  cases hread with
  | cons hfirst _ =>
  cases hrecords with
  | cons hrecord _ =>
  obtain ⟨mname, rname, serial, refresh, retry, expire, minimum, n₁, n₂, n₃, n₄, n₅,
    hfields, h₄, h₅,
    hdata⟩ := transferred_soa hvalid hsoa hseen
  obtain ⟨pre, text, hvalue, htext⟩ := hvalid.exists_numbersText hfields
  have hne : ∀ part ∈ splitWhitespace soa.value, part ≠ [] := fun part hpart =>
    ne_nil_of_mem_splitWhitespace hpart
  simp only [hfields, List.forall_mem_cons] at hne
  obtain ⟨-, -, hserial, hrefresh, hretry, -⟩ := hne
  have htextNe : text ≠ [] := by
    rintro rfl
    cases htext.fields
  obtain ⟨before, hbefore⟩ := exists_encodeTargetParts pre htextNe
    (fun hmem => (htext.chars '.' hmem).ne_dot rfl)
  -- the RDATA of the record are the bytes before the text and the text
  let rdata := before ++ utf8 text
  have hrdata : encodeTargetParts soa.value = rdata := by rw [hvalue, hbefore]
  have hlength : rdata.length < 65536 := by
    have hle := length_encodeTargetParts soa.value
    have hfits := hvalid.fits
    rw [hrdata] at hle
    omega
  let fields := u16ToBe 6 ++ u16ToBe 1 ++ u32ToBe soa.ttl ++ u16ToBe (UInt16.ofNat rdata.length)
  have hrr : axfrRr lib qname soa = encodeName qname ++ (fields ++ rdata) := by
    have haxfr : axfrRdata lib soa = u16ToBe (UInt16.ofNat rdata.length) ++ rdata := by
      simp only [axfrRdata, hsoa, withLength, hrdata]
    simp [axfrRr, haxfr, hsoa, RecordType.toU16, fields]
  rw [hrr] at hm
  have hm' : m = front ++ (encodeName qname ++ (fields ++ (rdata ++ (tail ++ rest)))) := by
    rw [hm]
    simp
  rw [hm'] at hrecord
  obtain ⟨-, hstart, hstop⟩ := recordAt_inv hrecord
  have hrdlength : u16At (fields ++ (rdata ++ (tail ++ rest))) 8 = UInt16.ofNat rdata.length := by
    have hpos := u16At_append_right (u16ToBe 6 ++ u16ToBe 1 ++ u32ToBe soa.ttl)
      (u16ToBe (UInt16.ofNat rdata.length) ++ (rdata ++ (tail ++ rest))) 0
    rw [u16At_u16ToBe_append] at hpos
    simpa [fields] using hpos
  rw [hrdlength, UInt16.toNat_ofNat', Nat.mod_eq_of_lt hlength] at hstop
  refine not_dataAt_soa (m := m) htext ?_ h₄ h₅ hserial hrefresh hretry (hdata ▸ hfirst.2.2.2.2)
  intro i hle hlt
  have hsplit : m = (front ++ encodeName qname ++ fields ++ before) ++
      (utf8 text ++ (tail ++ rest)) := by
    rw [hm']
    simp [rdata]
  have hfieldsLength : fields.length = 10 := by simp [fields]
  have hrdataLength : rdata.length = before.length + text.length := by
    rw [List.length_append, length_utf8, htext.byteLen_eq]
  apply htext.byte_range
  rw [hsplit]
  apply byteAt_append_mem
  · simp only [List.length_append]
    omega
  · simp only [List.length_append, length_utf8, htext.byteLen_eq]
    omega

/-- A message whose first record is not an SOA record is not read as one. -/
theorem not_answersOf_other {lib : TransferExternals} {m : Bytes} {qname : Str}
    {qtype : UInt16} {records : List DnsZoneRecord} {seen : TransferredRecord}
    {more : List TransferredRecord}
    (hm : IsResponse m qname qtype (UInt16.ofNat records.length)
      (records.flatMap (axfrRr lib qname)))
    (htypes : ∀ record ∈ records, record.recordType ≠ .soa) (hseen : seen.rrType = 6) :
    ¬ AnswersOf m (seen :: more) := by
  rintro ⟨answers, hmessage, hread⟩
  obtain ⟨front, rest, hm, hcount, stop, hrecords⟩ := hm.answers hmessage
  cases hread with
  | cons hfirst _ =>
  cases hrecords with
  | cons hrecord _ =>
  cases records with
  | nil => simp at hcount
  | cons record records =>
    let behind := u16ToBe 1 ++ u32ToBe record.ttl ++ axfrRdata lib record ++
      (records.flatMap (axfrRr lib qname) ++ rest)
    have hm' : m = front ++ (encodeName qname ++ (u16ToBe record.recordType.toU16 ++ behind)) := by
      rw [hm]
      simp [axfrRr, behind]
    rw [hm'] at hrecord
    have htype := (recordAt_inv hrecord).1
    rw [u16At_u16ToBe_append, ← hfirst.2.1, hseen] at htype
    refine htypes record (by simp) ?_
    revert htype
    unfold RecordType.toU16
    split <;> simp_all

/-! ## Section 6: Whole transfers -/

/-- A response, or the response with a TSIG record that is counted and put at its end. -/
def MaybeSigned (response m : Bytes) : Prop :=
  m = response ∨ ∃ arcount signed : Bytes, arcount.length = 2 ∧
    m = response.take 10 ++ arcount ++ response.drop 12 ++ signed

theorem forall₂_of_mapM {ε α β : Type} {f : α → Except ε β} {xs : List α} {ys : List β}
    (h : xs.mapM f = .ok ys) : List.Forall₂ (fun x y => f x = .ok y) xs ys := by
  induction xs generalizing ys with
  | nil =>
    obtain rfl := Except.ok.inj h
    exact .nil
  | cons x xs ih =>
    rw [List.mapM_cons] at h
    obtain ⟨y, hy, h⟩ := bind_eq_ok h
    obtain ⟨rest, hrest, h⟩ := bind_eq_ok h
    obtain rfl := Except.ok.inj h
    exact .cons hy (ih hrest)

/-- Two computations of a list one after the other. -/
theorem forall₂_ok_ok {ε δ α β : Type} {f : α → Except ε (Except δ β)} {xs : List α}
    {ys : List (Except δ β)} {zs : List β} (h : List.Forall₂ (fun x y => f x = .ok y) xs ys)
    (h' : List.Forall₂ (fun y z => id y = .ok z) ys zs) :
    List.Forall₂ (fun x z => f x = .ok (.ok z)) xs zs := by
  induction h generalizing zs with
  | nil =>
    cases h'
    exact .nil
  | cons hfirst _ ih =>
    cases h' with
    | cons hok hrest => exact .cons (hfirst.trans (congrArg Except.ok hok)) (ih hrest)

theorem exists_of_forall₂_mem {α β : Type} {R : α → β → Prop} {xs : List α} {ys : List β}
    (h : List.Forall₂ R xs ys) {y : β} (hy : y ∈ ys) : ∃ x ∈ xs, R x y := by
  induction h with
  | nil => cases hy
  | cons hfirst _ ih =>
    rcases List.mem_cons.mp hy with rfl | hy
    · exact ⟨_, List.mem_cons_self, hfirst⟩
    · obtain ⟨x, hx, hrel⟩ := ih hy
      exact ⟨x, List.mem_cons_of_mem _ hx, hrel⟩

theorem maybeSigned_of_append {hmac : Hmac} {keys : TsigKeys} {now : UInt64} {response m : Bytes}
    {keyName : Str}
    (h : appendTsigToResponse hmac (some keys) now response keyName = .ok (.ok m)) :
    MaybeSigned response m := by
  unfold appendTsigToResponse at h
  dsimp only at h
  split at h
  · cases h
  · next signed _ =>
    split at h
    · cases h
    · obtain ⟨arcount, -, h⟩ := bind_eq_ok h
      obtain ⟨newArcount, -, h⟩ := bind_eq_ok h
      obtain rfl := Except.ok.inj (Except.ok.inj h)
      exact .inr ⟨u16ToBe (UInt16.ofNat newArcount), signed, rfl, by simp⟩

/-- What is returned are the responses, signed or not. -/
theorem forall₂_of_signResponses {transfer : ZoneTransfer} {env : TransferEnvironment}
    {request : TransferRequest} {responses messages : List Bytes}
    (h : transfer.signResponses env request responses = .ok (.ok messages)) :
    List.Forall₂ MaybeSigned responses messages := by
  unfold ZoneTransfer.signResponses at h
  split at h
  · next tsig keys _ _ =>
    obtain ⟨signed, hsigned, h⟩ := bind_eq_ok h
    have hboth := forall₂_ok_ok (forall₂_of_mapM hsigned) (forall₂_of_mapM (Except.ok.inj h))
    have hindexed : List.Forall₂ (fun (response : Bytes × Nat) m => MaybeSigned response.1 m)
        responses.zipIdx messages := hboth.imp fun _ _ => maybeSigned_of_append
    have hfst := List.forall₂_map_left_iff.mpr hindexed
    rwa [List.zipIdx_map_fst] at hfst
  · obtain rfl := Except.ok.inj (Except.ok.inj h)
    exact List.forall₂_same.mpr fun _ _ => .inl rfl

/-- Signing leaves the header's counts of questions and answers, and what is behind it. -/
theorem IsResponse.of_maybeSigned {lib : TransferExternals} {m : Bytes} {qname : Str}
    {recordType : RecordType} {records : List DnsZoneRecord} {messageId : UInt16}
    (h : MaybeSigned (buildAxfrRecord lib qname recordType records messageId) m) :
    IsResponse m qname recordType.toU16 (UInt16.ofNat records.length)
      (records.flatMap (axfrRr lib qname)) := by
  let header := transferHeader messageId (recordType = .soa) (UInt16.ofNat records.length)
  let body := transferQuestion qname recordType.toU16 ++ records.flatMap (axfrRr lib qname)
  have hresponse : buildAxfrRecord lib qname recordType records messageId = header ++ body := by
    simp [buildAxfrRecord, header, body]
  -- the first ten bytes have the counts of questions and answers
  have hcounts : ∀ rest : Bytes, u16At (header.take 10 ++ rest) 4 = 1 ∧
      u16At (header.take 10 ++ rest) 6 = UInt16.ofNat records.length := by
    intro rest
    obtain ⟨hqd, han, -⟩ : u16At (header ++ []) 4 = 1 ∧
        u16At (header ++ []) 6 = UInt16.ofNat records.length ∧ _ :=
      transferHeader_counts messageId (recordType = .soa) (UInt16.ofNat records.length) []
    rw [List.append_nil, ← List.take_append_drop 10 header] at hqd han
    have hfield : ∀ {i : Nat}, i < 9 → ∀ rest' : Bytes,
        u16At (header.take 10 ++ rest) i = u16At (header.take 10 ++ rest') i := by
      intro i hi rest'
      have hlt : i + 1 < (header.take 10).length := Nat.succ_lt_succ hi
      rw [u16At_append_left hlt, u16At_append_left hlt]
    exact ⟨(hfield (by omega) _).trans hqd, (hfield (by omega) _).trans han⟩
  rw [hresponse] at h
  rcases h with rfl | ⟨arcount, signed, harcount, rfl⟩
  · have hsplit : header.take 10 ++ header.drop 10 = header := List.take_append_drop 10 header
    refine ⟨header.take 10 ++ header.drop 10, [], rfl, (hcounts _).1, (hcounts _).2, ?_⟩
    rw [hsplit, List.append_nil]
  · refine ⟨header.take 10 ++ arcount, signed, ?_, (hcounts _).1, (hcounts _).2, ?_⟩
    · rw [List.length_append, harcount]
      rfl
    · have htake : (header ++ body).take 10 = header.take 10 := rfl
      have hdrop : (header ++ body).drop 12 = body := List.drop_left' rfl
      rw [htake, hdrop]
      simp [body]

/-- The first of all answers is an answer of some message. -/
theorem exists_answersOf_head {messages : List Bytes} {seen : List (List TransferredRecord)}
    (h : List.Forall₂ AnswersOf messages seen) {first : TransferredRecord}
    {rest : List TransferredRecord} (hflat : seen.flatten = first :: rest) :
    ∃ m ∈ messages, ∃ more, AnswersOf m (first :: more) := by
  induction h with
  | nil => cases hflat
  | cons hm _ ih =>
    rename_i m answers messages seen _
    cases answers with
    | nil =>
      obtain ⟨m', hm', hmore⟩ := ih hflat
      exact ⟨m', List.mem_cons_of_mem _ hm', hmore⟩
    | cons answer more =>
      obtain ⟨rfl, -⟩ := List.cons.inj hflat
      exact ⟨m, List.mem_cons_self, more, hm⟩

/-- The messages of a zone with an SOA record, signed or not, are not read as the zone. -/
theorem not_transfersZone_of_signed {lib : TransferExternals} {messageId : UInt16}
    {qname origin : Str} {zone : Zone} {soa : DnsZoneRecord}
    (htypes : ∀ key records, zone.records.lookup key = some records →
      ∀ record ∈ records, record.recordType = key.2)
    (hsoa : zone.getSoa lib.toExternals = some soa) (hvalid : ValidSoa soa.value)
    {messages : List Bytes}
    (hsigned : List.Forall₂ MaybeSigned (axfrMessages lib messageId qname origin zone) messages) :
    ¬ TransfersZone origin zone.records soa messages := by
  rintro ⟨seen, hseen, soaSeen, others, htransferred, hflat, -⟩
  have hfind : soa.recordType = .soa ∧
      (findSoaRecord zone = some soa ∨ findSoaRecord zone = none) := by
    unfold Zone.getSoa at hsoa
    unfold findSoaRecord
    cases hapex : zone.records.lookup (apex, .soa) with
    | some records =>
      rw [hapex] at hsoa
      exact ⟨htypes _ _ hapex soa (List.mem_of_mem_head? hsoa), .inl hsoa⟩
    | none =>
      rw [hapex] at hsoa
      obtain ⟨records, hrecords, hhead⟩ := Option.bind_eq_some_iff.mp hsoa
      exact ⟨htypes _ _ hrecords soa (List.mem_of_mem_head? hhead), .inr rfl⟩
  obtain ⟨htype, hfind | hfind⟩ := hfind
  · -- the first message has the SOA record of the encoder
    rw [axfrMessages, hfind] at hsigned
    cases hsigned with
    | cons hfirst _ =>
    cases hseen with
    | cons hanswers _ =>
    rename_i m _ answers _ _
    have hm := IsResponse.of_maybeSigned hfirst
    cases answers with
    | nil =>
      obtain ⟨records, hmessage, hread⟩ := hanswers
      obtain ⟨_, _, _, hcount, -⟩ := hm.answers hmessage
      cases hread
      simp at hcount
    | cons answer more =>
      obtain ⟨rfl, -⟩ := List.cons.inj hflat
      exact not_answersOf_soa hvalid htype hm htransferred hanswers
  · -- without a record under `@` there is no SOA message, and other records have other types
    obtain ⟨m, hmem, more, hanswers⟩ := exists_answersOf_head hseen hflat
    have hrrType : soaSeen.rrType = 6 := by
      obtain ⟨data, -, rfl⟩ := Option.map_eq_some_iff.mp htransferred
      rw [htype]
      rfl
    rw [axfrMessages, hfind] at hsigned
    obtain ⟨response, hresponse, hm⟩ := exists_of_forall₂_mem hsigned hmem
    simp only [Option.toList_none, List.map_nil, List.nil_append, List.append_nil,
      axfrRecordMessages, List.mem_map, List.mem_filter] at hresponse
    obtain ⟨⟨⟨name, recordType⟩, records⟩, ⟨hentry, hother⟩, rfl⟩ := hresponse
    refine not_answersOf_other (IsResponse.of_maybeSigned hm) ?_ hrrType hanswers
    intro record hrecord
    rw [htypes (name, recordType) records (AList.mem_lookup_iff.mpr hentry) record hrecord]
    simpa using hother

/-- **AXFR.** Whatever zone with an SOA record is transferred, and however the messages are
    signed: they are not read as the zone. -/
theorem axfr_not_transfersZone (transfer : ZoneTransfer) (env : TransferEnvironment)
    (request : TransferRequest) (isTcp : Bool) {zone : VersionedZone} {soa : DnsZoneRecord}
    (hzone : env.zones.lookup (trimEndMatches '.' request.qname) = some zone)
    (htypes : ∀ key records, zone.records.lookup key = some records →
      ∀ record ∈ records, record.recordType = key.2)
    (hsoa : zone.getSoa env.lib.toExternals = some soa) (hvalid : ValidSoa soa.value)
    {messages : List Bytes}
    (h : transfer.handleAxfrRequestMessages env request isTcp = .ok (.ok messages)) :
    ¬ TransfersZone (trimEndMatches '.' request.qname) zone.records soa messages := by
  have hsigned : List.Forall₂ MaybeSigned (axfrMessages env.lib request.messageId request.qname
      (trimEndMatches '.' request.qname) zone.toZone) messages := by
    unfold ZoneTransfer.handleAxfrRequestMessages at h
    split at h
    · cases h
    · split at h
      · cases h
      · split at h
        · cases h
        · next zone' haccess =>
          obtain ⟨_, -, hrequested⟩ := bind_eq_ok haccess
          rw [ZoneTransfer.requestedZone, hzone] at hrequested
          obtain rfl := Except.ok.inj hrequested
          exact forall₂_of_signResponses h
  exact not_transfersZone_of_signed htypes hsoa hvalid hsigned

/-! ## Section 7: A transfer -/

def soaText : Str := "ns1.example.com. admin.example.com. 1 3600 600 86400 300".toList

/-- A zone with an SOA record and an address. -/
def smallZone : VersionedZone where
  toZone := { Zone.new "example.com".toList with
    records := Table.collect
      [((apex, .soa), [⟨apex, .soa, soaText, 300, none⟩]),
        (("www".toList, .a), [⟨"www".toList, .a, "1.2.3.4".toList, 300, none⟩])] }
  serial := 1
  history := []

def smallEnvironment : TransferEnvironment where
  lib := { asciiExternals with toUppercase := fun s => s.map Char.toUpper }
  hmac _ _ _ := []
  sha256 _ := []
  networkContains _ := false
  zones := Table.collect [("example.com".toList, smallZone)]
  cache := .new 0
  clock := ⟨7, 7, 7, 7, 7, Nat.le_refl 7, Nat.le_refl 7, Nat.le_refl 7, Nat.le_refl 7, by decide⟩
  signedAt _ := 0

/-- AXFR to those who ask for the zone, without TSIG. -/
def openTransfer : ZoneTransfer where
  allowedTransfers := ["example.com".toList]
  tsigVerifier := none
  allowWildcardTransfer := false
  wildcardTransferRequiresTsig := true
  requireTsig := false
  ixfrEnabled := true
  ixfrFallbackToAxfr := true
  axfrEnabled := true
  tcpOnly := true

def smallRequest : TransferRequest where
  qname := "example.com".toList
  tsig := none
  messageId := 7
  message := []

theorem smallZone_types (key : Str × RecordType) (records : List DnsZoneRecord)
    (h : smallZone.records.lookup key = some records) (record : DnsZoneRecord)
    (hmem : record ∈ records) : record.recordType = key.2 := by
  have hentry := (Table.lookup_collect (by decide) key records).mp h
  simp only [List.mem_cons, List.not_mem_nil, or_false] at hentry
  rcases hentry with hentry | hentry
  · obtain ⟨rfl, rfl⟩ := Prod.mk.inj hentry
    rw [List.mem_singleton.mp hmem]
  · obtain ⟨rfl, rfl⟩ := Prod.mk.inj hentry
    rw [List.mem_singleton.mp hmem]

theorem validSoa_soaText : ValidSoa soaText where
  fields := by
    refine ⟨"ns1.example.com.".toList, "admin.example.com.".toList, "1".toList, "3600".toList,
      "600".toList, "86400".toList, "300".toList, ?_⟩
    decide +kernel
  blanks := by
    have hall : soaText.all (fun c => !isWhitespace c || c == ' ') = true := by decide +kernel
    intro c hc hblank
    have hspace := List.all_eq_true.mp hall c hc
    rw [hblank] at hspace
    exact Or.inl (by simpa using hspace)
  fits := by decide +kernel

/-- The zone is transferred in three messages, and a reader does not get it back. -/
theorem small_axfr_not_transfersZone :
    ∃ messages, openTransfer.handleAxfrRequestMessages smallEnvironment smallRequest true =
        .ok (.ok messages) ∧ messages.length = 3 ∧
      ¬ TransfersZone "example.com".toList smallZone.records ⟨apex, .soa, soaText, 300, none⟩
        messages :=
  ⟨_, rfl, rfl, axfr_not_transfersZone openTransfer smallEnvironment smallRequest true rfl
    smallZone_types rfl validSoa_soaText rfl⟩

/-- The SOA record of the first message has 57 bytes of labels as its RDATA, where its names and
    numbers take 56, and the address record says that it has two bytes of RDATA and has four. -/
theorem small_axfr_misread :
    ∃ soaMessage addressMessage,
      openTransfer.handleAxfrRequestMessages smallEnvironment smallRequest true =
        .ok (.ok [soaMessage, addressMessage, soaMessage]) ∧
      slice soaMessage 50 52 = u16ToBe 57 ∧ slice addressMessage 58 60 = u16ToBe 2 ∧
      addressMessage.length = 64 ∧
      ¬ TransfersZone "example.com".toList smallZone.records ⟨apex, .soa, soaText, 300, none⟩
        [soaMessage, addressMessage, soaMessage] :=
  ⟨_, _, rfl, by decide +kernel, by decide +kernel, by decide +kernel,
    not_transfersZone_of_signed smallZone_types rfl validSoa_soaText
      (List.forall₂_same.mpr fun _ _ => .inl rfl)⟩

end Synvoid.Dns
