import Synvoid.Dns.ParsedQuery
import Synvoid.Framework.DnsName

/-! # Three readers of a question name

    Model of `skip_wire_name` (`synvoid-dns/src/parsed_query.rs`) and of
    `parse_query_name` (`wire.rs`), beside `ParsedDnsQuery::parse`.

    `LabelsAt` says where the labels of a name stand in a message. What the
    parser accepts is such a name, and the other two readers follow it, up to
    the limit: the parser counts the labels with their length bytes and leaves
    the root out, so it takes names of 256 octets, one more than
    `parse_query_name`.
-/

namespace Synvoid.Dns

open Synvoid.Framework

/-! ### The readers -/

def skipWireNameFrom (raw : Bytes) : Nat → Nat → Option Nat
  | 0, _ => none
  | fuel + 1, pos =>
      if pos < raw.length then
        let len := byteAt raw pos
        if len = 0 then some (pos + 1)
        else if len &&& 0xC0 = 0xC0 then none
        else skipWireNameFrom raw fuel (pos + 1 + len.toNat)
      else none

/-- `ParsedDnsQuery::skip_wire_name`. -/
def skipWireName (raw : Bytes) (start : Nat) : Option Nat :=
  skipWireNameFrom raw (raw.length + 1) start

def maxJumps : Nat := 10

/-- The loop of `parse_query_name`. It also ends, without an error, where the
    message does. -/
def parseQueryNameFrom (bytes : Bytes) (originalPos : Nat) : Nat → Nat → Nat → Str → Option Str
  | 0, _, _, _ => none
  | fuel + 1, pos, jumps, name =>
      if pos < bytes.length then
        let len := byteAt bytes pos
        if len = 0 then some name
        else if len &&& 0xC0 = 0xC0 then
          let offset := (len &&& 0x3F).toNat * 256 + (byteAt bytes (pos + 1)).toNat
          if pos + 1 ≥ bytes.length then none
          else if jumps + 1 > maxJumps then none
          else if offset ≥ bytes.length then none
          else if offset ≥ originalPos then none
          else parseQueryNameFrom bytes originalPos fuel offset (jumps + 1) name
        else if len > 63 then none
        else if pos + 1 + len.toNat > bytes.length then none
        else
          match decodeLabel (slice bytes (pos + 1) (pos + 1 + len.toNat)) with
          | none => none
          | some label =>
              parseQueryNameFrom bytes originalPos fuel (pos + 1 + len.toNat) jumps
                (joinLabel name label)
      else some name

/-- Every jump is followed by at most one step for each byte of the message. -/
def parseQueryName (bytes : Bytes) (pos : Nat) : Option Str :=
  (parseQueryNameFrom bytes pos ((maxJumps + 1) * (bytes.length + 1)) pos 0 []).bind fun name =>
    if byteLen name > 253 then none else some name

/-! ### Labels in a message -/

/-- The labels `ss` stand in the message from `pos` on, with the root, up to
    `stop`. -/
inductive LabelsAt (query : Bytes) : Nat → List Str → Nat → Prop where
  | root {pos : Nat} : pos < query.length → byteAt query pos = 0 → LabelsAt query pos [] (pos + 1)
  | label {pos stop : Nat} {label : Str} {ss : List Str} : pos < query.length →
      byteAt query pos ≠ 0 → byteAt query pos &&& 0xC0 ≠ 0xC0 → ¬ byteAt query pos > 63 →
      pos + 1 + (byteAt query pos).toNat ≤ query.length →
      decodeLabel (slice query (pos + 1) (pos + 1 + (byteAt query pos).toNat)) = some label →
      LabelsAt query (pos + 1 + (byteAt query pos).toNat) ss stop →
      LabelsAt query pos (label :: ss) stop

theorem utf8_of_decodeLabel {labelBytes : Bytes} {label : Str}
    (h : decodeLabel labelBytes = some label) : utf8 label = labelBytes := by
  unfold decodeLabel at h
  split at h
  · cases h
  · exact utf8_of_fromUtf8 h

namespace LabelsAt

variable {query : Bytes} {pos stop : Nat} {ss : List Str}

theorem lt_stop (h : LabelsAt query pos ss stop) : pos < stop ∧ stop ≤ query.length := by
  induction h with
  | root hpos _ => omega
  | label _ _ _ _ _ _ _ ih => omega

/-- The bytes of the labels. -/
theorem slice_eq (h : LabelsAt query pos ss stop) :
    slice query pos stop = encodeLabels ss ++ [0] ∧ ∀ s ∈ ss, 1 ≤ byteLen s ∧ byteLen s ≤ 63 := by
  induction h with
  | root hpos hzero => exact ⟨by rw [slice_byte hpos, hzero]; rfl, by simp⟩
  | @label pos stop label ss hpos hnonzero _ hshort hfits hlabel hrest ih =>
    obtain ⟨hslice, hss⟩ := ih
    have hle := hrest.lt_stop
    have hutf8 := utf8_of_decodeLabel hlabel
    have hbytes : byteLen label = (byteAt query pos).toNat := by
      rw [← length_utf8, hutf8, length_slice _ _ _ hfits]
      omega
    constructor
    · rw [← slice_append_slice query (Nat.le_succ pos) (by omega), slice_byte hpos,
        ← slice_append_slice query (Nat.le_add_right (pos + 1) _) (Nat.le_of_lt hle.1), hslice,
        encodeLabels_cons, encodeLabel, hbytes, UInt8.ofNat_toNat, hutf8]
      simp
    · rw [List.forall_mem_cons]
      refine ⟨⟨?_, ?_⟩, hss⟩
      · have hne : (byteAt query pos).toNat ≠ 0 := fun h0 => hnonzero (UInt8.toNat_inj.mp h0)
        omega
      · rw [hbytes]
        exact UInt8.le_iff_toNat_le.mp (UInt8.not_lt.mp hshort)

theorem skipWireNameFrom_eq (h : LabelsAt query pos ss stop) {fuel : Nat}
    (hfuel : stop - pos ≤ fuel) : skipWireNameFrom query fuel pos = some stop := by
  induction h generalizing fuel with
  | root hpos hzero =>
    cases fuel with
    | zero => omega
    | succ fuel => simp [skipWireNameFrom, hpos, hzero]
  | label hpos hnonzero hpointer _ _ _ hrest ih =>
    have hlt := hrest.lt_stop
    cases fuel with
    | zero => omega
    | succ fuel =>
      rw [skipWireNameFrom, if_pos hpos]
      simp only
      rw [if_neg hnonzero, if_neg hpointer]
      exact ih (by omega)

theorem parseQueryNameFrom_eq (h : LabelsAt query pos ss stop) (originalPos jumps : Nat)
    (name : Str) {fuel : Nat} (hfuel : stop - pos ≤ fuel) :
    parseQueryNameFrom query originalPos fuel pos jumps name = some (ss.foldl joinLabel name) := by
  induction h generalizing fuel name with
  | root hpos hzero =>
    cases fuel with
    | zero => omega
    | succ fuel =>
      rw [parseQueryNameFrom, if_pos hpos]
      simp only
      rw [if_pos hzero]
      rfl
  | label hpos hnonzero hpointer hshort hfits hlabel hrest ih =>
    have hlt := hrest.lt_stop
    cases fuel with
    | zero => omega
    | succ fuel =>
      rw [parseQueryNameFrom, if_pos hpos]
      simp only
      rw [if_neg hnonzero, if_neg hpointer, if_neg hshort, if_neg (Nat.not_lt.mpr hfits), hlabel]
      exact ih _ (by omega)

end LabelsAt

/-- What the parser accepts are labels, of at most 255 octets without the root. -/
theorem labelsAt_of_parseQname {query : Bytes} {fuel pos totalNameLen stop : Nat} {qname name : Str}
    (h : parseQname query fuel pos totalNameLen qname = .ok (.ok (name, stop))) :
    ∃ ss, LabelsAt query pos ss stop ∧ name = ss.foldl joinLabel qname ∧
      (totalNameLen ≤ 255 → totalNameLen + (stop - pos) ≤ 256) := by
  induction fuel generalizing pos totalNameLen qname with
  | zero => cases h
  | succ fuel ih =>
    unfold parseQname at h
    split at h
    · cases h
    · obtain ⟨len, hlen, h⟩ := bind_eq_ok h
      obtain ⟨hpos, rfl⟩ := index_eq_ok hlen
      split at h
      · next hzero =>
        cases h
        exact ⟨[], .root hpos hzero, rfl, by omega⟩
      · next hnonzero =>
        split at h
        · cases h
        · next hpointer =>
          split at h
          · cases h
          · next hshort =>
            split at h
            · cases h
            · obtain ⟨labelBytes, hrange, h⟩ := bind_eq_ok h
              obtain ⟨-, hfits, rfl⟩ := range_eq_ok hrange
              split at h
              · cases h
              · next label hlabel =>
                split at h
                · cases h
                · next htotal =>
                  obtain ⟨ss, hss, hname, hle⟩ := ih h
                  have hlt := hss.lt_stop
                  exact ⟨label :: ss, .label hpos hnonzero hpointer hshort hfits hlabel hss, hname,
                    fun _ => by have := hle (by omega); omega⟩

/-- What the loop reads is the encoding of the labels it puts together. -/
theorem parseQname_eq_ok {query : Bytes} {fuel pos totalNameLen stop : Nat} {qname name : Str}
    (h : parseQname query fuel pos totalNameLen qname = .ok (.ok (name, stop))) :
    ∃ ss : List Str, slice query pos stop = encodeLabels ss ++ [0] ∧ pos ≤ stop ∧
      name = ss.foldl joinLabel qname ∧ ∀ s ∈ ss, 1 ≤ byteLen s ∧ byteLen s ≤ 63 := by
  obtain ⟨ss, hss, hname, -⟩ := labelsAt_of_parseQname h
  exact ⟨ss, hss.slice_eq.1, Nat.le_of_lt hss.lt_stop.1, hname, hss.slice_eq.2⟩

/-- The fields of a parsed query in its bytes. -/
structure ReadFrom (query : Bytes) (parsed : ParsedDnsQuery) : Prop where
  id : parsed.id = u16At query 0
  flags : parsed.flags = QueryFlags.fromU16 (u16At query 2)
  qdcount : parsed.qdcount = u16At query 4
  qname : parseQname query (query.length + 1) 12 0 [] = .ok (.ok (parsed.qname, parsed.qnameEnd))
  qtype : parsed.qtype = u16At query parsed.qnameEnd
  qclass : parsed.qclass = u16At query (parsed.qnameEnd + 2)
  questionEnd : parsed.questionEnd = parsed.qnameEnd + 4
  length : parsed.qnameEnd + 4 ≤ query.length
  raw : parsed.raw = query

theorem readFrom_of_parse {query : Bytes} {parsed : ParsedDnsQuery}
    (h : ParsedDnsQuery.parse query = .ok (.ok parsed)) : ReadFrom query parsed := by
  unfold ParsedDnsQuery.parse at h
  split at h
  · cases h
  · obtain ⟨id, hid, h⟩ := bind_eq_ok h
    obtain ⟨-, rfl⟩ := readU16_eq_ok hid
    obtain ⟨rawFlags, hflags, h⟩ := bind_eq_ok h
    obtain ⟨-, rfl⟩ := readU16_eq_ok hflags
    obtain ⟨qdcount, hqdcount, h⟩ := bind_eq_ok h
    obtain ⟨-, rfl⟩ := readU16_eq_ok hqdcount
    split at h
    · cases h
    · split at h
      · cases h
      · obtain ⟨name, hname, h⟩ := bind_eq_ok h
        split at h
        · cases h
        · next qname qnameEnd =>
          split at h
          · cases h
          · next hlength =>
            obtain ⟨qtype, hqtype, h⟩ := bind_eq_ok h
            obtain ⟨-, rfl⟩ := readU16_eq_ok hqtype
            obtain ⟨qclass, hqclass, h⟩ := bind_eq_ok h
            obtain ⟨-, rfl⟩ := readU16_eq_ok hqclass
            obtain ⟨arcount, -, h⟩ := bind_eq_ok h
            obtain ⟨edns, -, h⟩ := bind_eq_ok h
            cases h
            exact ⟨rfl, rfl, rfl, hname, rfl, rfl, rfl, Nat.le_of_not_gt hlength, rfl⟩

/-! ### The limit of 255 octets -/

/-- The octets of a text with the length byte of its first label, none for the
    root. -/
def textOctets (name : Str) : Nat := if name = [] then 0 else byteLen name + 1

theorem textOctets_joinLabel (name : Str) {label : Str} (h : 1 ≤ byteLen label) :
    textOctets (joinLabel name label) = textOctets name + byteLen label + 1 := by
  have hne : label ≠ [] := by
    rintro rfl
    simp at h
  unfold textOctets joinLabel
  rw [if_neg (by simp [hne])]
  split_ifs with hname
  · simp
  · have hdot : ('.' : Char).utf8Size = 1 := by decide
    rw [byteLen_append, byteLen_append, byteLen_cons, byteLen_nil, hdot]

theorem textOctets_foldl {ss : List Str} (hss : ∀ s ∈ ss, 1 ≤ byteLen s) (name : Str) :
    textOctets (ss.foldl joinLabel name) = textOctets name + (encodeLabels ss).length := by
  induction ss generalizing name with
  | nil => rfl
  | cons s ss ih =>
    obtain ⟨hs, hss⟩ := List.forall_mem_cons.mp hss
    rw [List.foldl_cons, ih hss, textOctets_joinLabel name hs, encodeLabels_cons,
      List.length_append,
      length_encodeLabel]
    omega

/-- The question of the message has a name of 256 octets. -/
def LongQname (packet : Bytes) : Prop :=
  ∃ ls : List Bytes, (∀ l ∈ ls, 1 ≤ l.length ∧ l.length ≤ 63) ∧ (wireName ls).length = 256 ∧
    wireName ls <+: packet.drop 12

/-- **Limit**: the three readers agree on an accepted name, within 255 octets,
    exactly if it is not of 256. -/
theorem question_name_agrees_iff (packet : Bytes) (parsed : ParsedDnsQuery)
    (h : ParsedDnsQuery.parse packet = .ok (.ok parsed)) :
    ((slice packet 12 parsed.qnameEnd).length ≤ 255 ∧
      parseQueryName packet 12 = some parsed.qname ∧
      skipWireName packet 12 = some parsed.qnameEnd) ↔ ¬ LongQname packet := by
  have hread := readFrom_of_parse h
  obtain ⟨ss, hss, hname, hle⟩ := labelsAt_of_parseQname hread.qname
  obtain ⟨hslice, hlabels⟩ := hss.slice_eq
  obtain ⟨hlt, hstop⟩ := hss.lt_stop
  have hle := hle (by omega)
  have hlength := length_slice packet 12 parsed.qnameEnd hstop
  have hwire : slice packet 12 parsed.qnameEnd = wireName (ss.map utf8) := by
    rw [hslice, wireName, List.flatMap_map]
    rfl
  have hwireLabels : ∀ l ∈ ss.map utf8, 1 ≤ l.length ∧ l.length ≤ 63 := by simpa using hlabels
  have hfront : packet.drop 12 = wireName (ss.map utf8) ++ packet.drop parsed.qnameEnd := by
    rw [← hwire, ← slice_to_end packet parsed.qnameEnd,
      slice_append_slice packet (Nat.le_of_lt hlt) hstop, slice_to_end]
  constructor
  · rintro ⟨hshort, -, -⟩ ⟨ls, hls, hlong, rest, hrest⟩
    -- a message starts with one name only
    have hsame : wireName (ss.map utf8) = wireName ls := by
      have hours := readName_wireName hwireLabels (packet.drop parsed.qnameEnd)
        (ss.length + ls.length + 1) (by rw [List.length_map]; omega)
      have htheirs := readName_wireName hls rest (ss.length + ls.length + 1) (by omega)
      rw [← hfront] at hours
      rw [hrest, hours] at htheirs
      exact (Prod.mk.inj (Option.some.inj htheirs)).1
    rw [hwire, hsame, hlong] at hshort
    omega
  · intro hnot
    have hne : (slice packet 12 parsed.qnameEnd).length ≠ 256 := fun hlong =>
      hnot ⟨ss.map utf8, hwireLabels, by rw [← hwire, hlong], _, hfront.symm⟩
    refine ⟨by omega, ?_, hss.skipWireNameFrom_eq (by omega)⟩
    have hfuel : parsed.qnameEnd - 12 ≤ (maxJumps + 1) * (packet.length + 1) := by
      unfold maxJumps
      omega
    have hoctets : textOctets parsed.qname = (encodeLabels ss).length := by
      rw [hname, textOctets_foldl fun s hs => (hlabels s hs).1]
      exact Nat.zero_add _
    have hbytes := congrArg List.length hslice
    rw [List.length_append, List.length_singleton] at hbytes
    have htext : byteLen parsed.qname ≤ 253 := by
      unfold textOctets at hoctets
      split_ifs at hoctets with hnil
      · simp [hnil]
      · omega
    rw [parseQueryName, hss.parseQueryNameFrom_eq 12 0 [] hfuel, Option.bind_some, ← hname,
      if_neg (by omega)]

/-! ### Accepted names -/

theorem parseQname_of_labelsAt {query : Bytes} {pos stop : Nat} {ss : List Str}
    (h : LabelsAt query pos ss stop) {totalNameLen : Nat} (hle : totalNameLen + (stop - pos) ≤ 256)
    (qname : Str) {fuel : Nat} (hfuel : stop - pos ≤ fuel) :
    parseQname query fuel pos totalNameLen qname = .ok (.ok (ss.foldl joinLabel qname, stop)) := by
  induction h generalizing fuel qname totalNameLen with
  | root hpos hzero =>
    cases fuel with
    | zero => omega
    | succ fuel =>
      rw [parseQname, if_neg (Nat.not_le.mpr hpos), index_of_lt hpos]
      change (if _ = (0 : UInt8) then _ else _) = _
      rw [if_pos hzero]
      rfl
  | label hpos hnonzero hpointer hshort hfits hlabel hrest ih =>
    have hlt := hrest.lt_stop
    cases fuel with
    | zero => omega
    | succ fuel =>
      rw [parseQname, if_neg (Nat.not_le.mpr hpos), index_of_lt hpos]
      change (if _ = (0 : UInt8) then _ else _) = _
      rw [if_neg hnonzero, if_neg hpointer, if_neg hshort, if_neg (Nat.not_lt.mpr hfits),
        range, if_pos ⟨Nat.le_add_right _ _, hfits⟩]
      change (match decodeLabel _ with | none => _ | some label => _) = _
      rw [hlabel]
      simp only
      rw [if_neg (by omega)]
      exact ih (by omega) _ (by omega)

/-- The two high bits of the first byte of a pointer. -/
theorem pointerBits {b : UInt8} (h : 192 ≤ b.toNat) : b &&& 0xC0 = 0xC0 := by
  have hall : ∀ n < 256, 192 ≤ n → n &&& 192 = 192 := by decide +kernel
  apply UInt8.toNat_inj.mp
  rw [UInt8.toNat_and]
  exact hall b.toNat b.toNat_lt h

theorem not_pointer {len : UInt8} (h : len.toNat ≤ 63) : len &&& 0xC0 ≠ 0xC0 := by
  have hall : ∀ i : Fin 64, UInt8.ofNat i &&& 0xC0 ≠ 0xC0 := by decide
  have hlen := hall ⟨len.toNat, by omega⟩
  rwa [UInt8.ofNat_toNat] at hlen

/-- Labels that are written into a message stand there. -/
theorem labelsAt_encodeLabels {ss : List Str}
    (hss : ∀ s ∈ ss, (1 ≤ byteLen s ∧ byteLen s ≤ 63) ∧ decodeLabel (utf8 s) = some s)
    (front rest : Bytes) :
    LabelsAt (front ++ (encodeLabels ss ++ 0 :: rest)) front.length ss
      (front.length + (encodeLabels ss).length + 1) := by
  induction ss generalizing front with
  | nil => exact .root (by simp) (by simp [byteAt])
  | cons s ss ih =>
    obtain ⟨⟨hlength, hdecode⟩, hss⟩ := List.forall_mem_cons.mp hss
    have hmessage : front ++ (encodeLabels (s :: ss) ++ 0 :: rest) =
        front ++ encodeLabel s ++ (encodeLabels ss ++ 0 :: rest) := by simp
    have hbyte : byteAt (front ++ (encodeLabels (s :: ss) ++ 0 :: rest)) front.length =
        UInt8.ofNat (byteLen s) := by
      rw [encodeLabels_cons, List.append_assoc, byteAt_encodeLabel]
    have hnat : (UInt8.ofNat (byteLen s)).toNat = byteLen s := by
      rw [UInt8.toNat_ofNat', Nat.mod_eq_of_lt (by omega)]
    have hstart : (front ++ encodeLabel s).length = front.length + 1 + byteLen s := by
      simp
      omega
    have hlabel : slice (front ++ (encodeLabels (s :: ss) ++ 0 :: rest)) (front.length + 1)
        (front.length + 1 + byteLen s) = utf8 s := by
      rw [encodeLabels_cons, List.append_assoc, slice_encodeLabel]
    refine .label (by simp) ?_ ?_ ?_ ?_ ?_ ?_
    · rw [hbyte, ← UInt8.toNat_inj.ne, hnat]
      simp
      omega
    · exact not_pointer (by rw [hbyte, hnat]; exact hlength.2)
    · rw [hbyte, UInt8.not_lt, UInt8.le_iff_toNat_le, hnat]
      exact hlength.2
    · rw [hbyte, hnat]
      simp
      omega
    · rw [hbyte, hnat, hlabel, hdecode]
    · have hrest := ih hss (front ++ encodeLabel s)
      rw [hbyte, hnat, hmessage, ← hstart]
      convert hrest using 1
      simp
      omega

/-- A message with a question and no other record. -/
def questionMessage (ss : List Str) : Bytes :=
  [0, 1, 0, 0, 0, 1, 0, 0, 0, 0, 0, 0] ++ (encodeLabels ss ++ 0 :: [0, 1, 0, 1])

/-- Labels of up to 255 octets are accepted as a question. -/
theorem parse_questionMessage {ss : List Str}
    (hss : ∀ s ∈ ss, (1 ≤ byteLen s ∧ byteLen s ≤ 63) ∧ decodeLabel (utf8 s) = some s)
    (hle : (encodeLabels ss).length ≤ 255) :
    ∃ parsed, ParsedDnsQuery.parse (questionMessage ss) = .ok (.ok parsed) ∧
      parsed.qnameEnd = 13 + (encodeLabels ss).length := by
  have hlabels : LabelsAt (questionMessage ss) 12 ss (12 + (encodeLabels ss).length + 1) :=
    labelsAt_encodeLabels hss [0, 1, 0, 0, 0, 1, 0, 0, 0, 0, 0, 0] [0, 1, 0, 1]
  have hlength : (questionMessage ss).length = 17 + (encodeLabels ss).length := by
    simp [questionMessage]
    omega
  have hname : parseQname (questionMessage ss) ((questionMessage ss).length + 1) 12 0 [] =
      .ok (.ok (ss.foldl joinLabel [], 12 + (encodeLabels ss).length + 1)) :=
    parseQname_of_labelsAt hlabels (by omega) [] (by omega)
  have hflags : u16At (questionMessage ss) 2 = u16At [0, 1, 0, 0, 0, 1] 2 := rfl
  have hcount : u16At (questionMessage ss) 4 = u16At [0, 1, 0, 0, 0, 1] 4 := rfl
  have hadditional : u16At (questionMessage ss) 10 = u16At [0, 0] 0 := rfl
  unfold ParsedDnsQuery.parse
  rw [if_neg (by omega), readU16_of_lt (by omega), readU16_of_lt (by omega),
    readU16_of_lt (by omega), readU16_of_lt (by omega), hname, hflags, hcount, hadditional]
  simp only [bind, Except.bind]
  rw [if_neg (by decide), if_neg (by decide), if_neg (by omega), readU16_of_lt (by omega),
    readU16_of_lt (by omega)]
  exact ⟨_, rfl, by simp only; omega⟩

theorem decodeLabel_utf8 {s : Str}
    (h : ((utf8 s).any fun byte => byte < 0x21 || byte == 0x7F) = false) :
    decodeLabel (utf8 s) = some s := by
  rw [decodeLabel, h]
  exact fromUtf8_utf8 s

/-- A label of `n` letters. -/
def letters (n : Nat) : Str := List.replicate n 'a'

theorem utf8_letters (n : Nat) : utf8 (letters n) = List.replicate n 0x61 := by
  induction n with
  | zero => rfl
  | succ n ih =>
    rw [letters, List.replicate_succ, utf8_cons]
    exact congrArg (0x61 :: ·) ih

theorem decodeLabel_letters (n : Nat) : decodeLabel (utf8 (letters n)) = some (letters n) := by
  refine decodeLabel_utf8 ?_
  rw [utf8_letters]
  simp only [List.any_replicate]
  split
  · rfl
  · decide

theorem byteLen_letters (n : Nat) : byteLen (letters n) = n := by
  rw [← length_utf8, utf8_letters, List.length_replicate]

/-- Names of letters are accepted. -/
theorem parse_lettersMessage (lengths : List Nat) (hlengths : ∀ n ∈ lengths, 1 ≤ n ∧ n ≤ 63)
    (hle : (lengths.map (· + 1)).sum ≤ 255) :
    ∃ parsed, ParsedDnsQuery.parse (questionMessage (lengths.map letters)) = .ok (.ok parsed) ∧
      parsed.qnameEnd = 13 + (lengths.map (· + 1)).sum := by
  have hlength : (encodeLabels (lengths.map letters)).length = (lengths.map (· + 1)).sum := by
    rw [length_encodeLabels, List.map_map]
    congr 1
    refine List.map_congr_left fun n _ => ?_
    rw [Function.comp_apply, byteLen_letters]
  rw [← hlength] at hle ⊢
  refine parse_questionMessage ?_ hle
  intro s hs
  obtain ⟨n, hn, rfl⟩ := List.mem_map.mp hs
  exact ⟨by rw [byteLen_letters]; exact hlengths n hn, decodeLabel_letters n⟩

/-- A short question. -/
theorem question_name_agrees_short :
    ∃ parsed, ParsedDnsQuery.parse (questionMessage ([1, 3].map letters)) = .ok (.ok parsed) ∧
      (slice (questionMessage ([1, 3].map letters)) 12 parsed.qnameEnd).length ≤ 255 ∧
      parseQueryName (questionMessage ([1, 3].map letters)) 12 = some parsed.qname ∧
      skipWireName (questionMessage ([1, 3].map letters)) 12 = some parsed.qnameEnd := by
  obtain ⟨parsed, hparsed, hend⟩ := parse_lettersMessage [1, 3] (by decide) (by decide)
  refine ⟨parsed, hparsed, (question_name_agrees_iff _ parsed hparsed).mpr ?_⟩
  rintro ⟨ls, -, hlong, hfront⟩
  have hle := hfront.length_le
  rw [hlong] at hle
  revert hle
  decide

/-- Four labels that take 255 octets without the root. -/
theorem long_question_accepted :
    ¬ (∀ (packet : Bytes) (parsed : ParsedDnsQuery),
      ParsedDnsQuery.parse packet = .ok (.ok parsed) →
      (slice packet 12 parsed.qnameEnd).length ≤ 255 ∧
      parseQueryName packet 12 = some parsed.qname ∧
      skipWireName packet 12 = some parsed.qnameEnd) := by
  intro h
  obtain ⟨parsed, hparsed, hend⟩ :=
    parse_lettersMessage [63, 63, 63, 62] (by decide) (by decide)
  have hread := readFrom_of_parse hparsed
  have hshort := (h _ parsed hparsed).1
  have hlength := hread.length
  rw [length_slice _ _ _ (by omega), hend] at hshort
  revert hshort
  decide

end Synvoid.Dns
