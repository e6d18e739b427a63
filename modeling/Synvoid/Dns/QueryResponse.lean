import Synvoid.Dns.DnssecRecords
import Synvoid.Dns.ParsedQuery

/-! # Responses to queries

    Model of the response builders of `synvoid-dns/src/server/response.rs` and
    of the signed denials of `server/query.rs`. A response is kept as the
    arguments of `assemble_packet`: every builder ends in it, or writes the
    same bytes by hand. `Response.bytes` is the packet.

    The reports about records that cannot be encoded are left out.
-/

namespace Synvoid.Dns

open Synvoid.Framework

/-- `build_response_flags`. -/
def buildResponseFlags (authoritative truncated recursionDesired recursionAvailable
    authenticData : Bool) (rcode : UInt8) : UInt16 :=
  (0x8000 : UInt16) ||| flagBit authoritative 0x0400 ||| flagBit truncated 0x0200 |||
    flagBit recursionDesired 0x0100 ||| flagBit recursionAvailable 0x0080 |||
    flagBit authenticData 0x0020 ||| (rcode.toUInt16 &&& 0x000F)

structure Response where
  id : UInt16
  flags : UInt16
  qname : Str
  qtype : UInt16
  envelope : ResponseEnvelope

namespace Response

def bytes (r : Response) : Bytes := assemblePacket r.envelope r.id r.flags r.qname r.qtype

def rcode (r : Response) : UInt16 := r.flags &&& 0x000F

def truncated (r : Response) : Bool := r.flags &&& 0x0200 != 0

def authoritative (r : Response) : Bool := r.flags &&& 0x0400 != 0

def recursionDesired (r : Response) : Bool := r.flags &&& 0x0100 != 0

/-- The records of the answer section. -/
def answers (r : Response) : List EncodedRecord := r.envelope.answerRecords

def authority (r : Response) : List EncodedRecord := r.envelope.authorityRecords

/-- Answers that are not signatures. -/
def unsignedAnswers (r : Response) : List EncodedRecord :=
  r.answers.filter fun e => e.recordType ≠ .rrsig

end Response

/-- What a response reads of the EDNS options of its query. -/
structure EdnsParams where
  udpPayloadSize : UInt16
  dnssecOk : Bool
  deriving DecidableEq, Repr

def EdnsOptions.params (edns : EdnsOptions) : EdnsParams where
  udpPayloadSize := edns.udpPayloadSize
  dnssecOk := edns.dnssecOk

/-- What a response reads of its query. -/
structure QuestionContext where
  id : UInt16
  qname : Str
  qtype : UInt16
  rd : Bool
  edns : Option EdnsParams
  deriving DecidableEq, Repr

namespace QuestionContext

variable (q : QuestionContext)

/-- The OPT record of a response to a query that has one. -/
def opt (dnssecOk : Bool) : List EncodedRecord :=
  q.edns.toList.map fun edns => buildOptEncodedRecord edns.udpPayloadSize dnssecOk

/-- The OPT record of an answer, which is also there for a DO bit alone. -/
def optOrDefault (dnssecOk : Bool) : List EncodedRecord :=
  match q.edns with
  | some edns => [buildOptEncodedRecord edns.udpPayloadSize dnssecOk]
  | none => if dnssecOk then [buildOptEncodedRecord 4096 dnssecOk] else []

def respond (flags : UInt16) (answers authority additional : List EncodedRecord) : Response where
  id := q.id
  flags := flags
  qname := q.qname
  qtype := q.qtype
  envelope := { answerRecords := answers, authorityRecords := authority,
                additionalRecords := additional }

/-- The SERVFAIL packet that several builders write by hand. -/
def servfail : Response := q.respond (buildResponseFlags true false q.rd false false 2) [] []
  (q.opt false)

def buildTruncatedTcResponse : Response :=
  q.respond (buildResponseFlags true true q.rd false false 0) [] [] (q.opt false)

/-- The payload size of the query's OPT record, or 512. -/
def maxSize : Nat := (q.edns.map fun edns => edns.udpPayloadSize.toNat).getD 512

/-- `fit_to_transport`, and the end of the other builders. -/
def fitToTransport (r : Response) : Response :=
  if q.maxSize > 0 ∧ r.bytes.length > q.maxSize then q.buildTruncatedTcResponse else r

/-! ### Answers -/

/-- The question's name, for records that repeat it by a pointer. -/
def compression (lib : Externals) : Option (Str × UInt16) :=
  let qnameClean :=
    if q.qname = [] ∨ q.qname = apex then [] else lib.toLowercase (trimEndMatches '.' q.qname)
  if qnameClean = [] then none else some (qnameClean, 12)

/-- The records that can be encoded. -/
def encodeAll (lib : Externals) (compression : Option (Str × UInt16))
    (records : List DnsZoneRecord) : List EncodedRecord :=
  records.filterMap fun record => (encodeRr lib record compression).toOption

/-- The signatures of the records, if there is a key and the DO bit is set. -/
def rrsigs (lib : Externals) (now : Nat) (records : List DnsZoneRecord) (dnssecOk : Bool)
    (zsk : Option ZoneSigningKey) (signerName : Str) : List EncodedRecord :=
  match zsk with
  | some key =>
      if dnssecOk then
        encodeAll lib (q.compression lib) (records.filterMap (rrsigRecord lib now signerName key))
      else []
  | none => []

def buildResponse (lib : Externals) (now : Nat) (records : List DnsZoneRecord) (dnssecOk : Bool)
    (zsk : Option ZoneSigningKey) (signerName : Str) : Response :=
  let encoded := encodeAll lib (q.compression lib) records
  if encoded = [] ∧ records ≠ [] then q.servfail
  else
    q.fitToTransport (q.respond (buildResponseFlags true false q.rd false false 0)
      (encoded ++ q.rrsigs lib now records dnssecOk zsk signerName) [] (q.optOrDefault dnssecOk))

/-- The answer to an ACME challenge. It does not repeat the RD bit. -/
def buildAcmeTxtResponse (lib : Externals) (txtValue : Str) : Response :=
  let q := { q with qtype := 16, rd := false }
  let acmeRecord : DnsZoneRecord :=
    { name := q.qname, recordType := .txt, value := txtValue, ttl := 300, priority := none }
  q.fitToTransport (q.respond (buildResponseFlags true false q.rd false false 0)
    (encodeAll lib (q.compression lib) [acmeRecord]) [] (q.opt false))

/-! ### Negative answers -/

/-- A record for the authority section. -/
def encodeAuthority (lib : Externals) (record : DnsZoneRecord) : Option EncodedRecord :=
  (encodeRr lib record none).toOption.map fun encoded => { encoded with dnsSection := .authority }

/-- The body of `build_unsigned_nodata` and `build_unsigned_nxdomain`. -/
def buildUnsigned (lib : Externals) (rcode : UInt8) (soa : Option DnsZoneRecord) : Response :=
  match soa.bind (encodeAuthority lib) with
  | none => q.servfail
  | some encoded =>
      q.respond (buildResponseFlags true false q.rd false false rcode) [] [encoded] (q.opt false)

def buildUnsignedNodata (lib : Externals) := q.buildUnsigned lib 0

def buildUnsignedNxdomain (lib : Externals) := q.buildUnsigned lib 3

/-- A record of a denial and its signature. -/
def denialRecords (lib : Externals) (now : Nat) (dnssecOk : Bool) (zsk : Option ZoneSigningKey)
    (signerName : Str) (nsecRecord : DnsZoneRecord) : List EncodedRecord :=
  (encodeAuthority lib { nsecRecord with priority := none }).toList ++
    match zsk with
    | some key =>
        if dnssecOk then
          (rrsigRecord lib now signerName key nsecRecord).toList.filterMap (encodeAuthority lib)
        else []
    | none => []

/-- The body of `build_nodata_response` and `build_nxdomain_response`. -/
def buildDenial (lib : Externals) (now : Nat) (rcode : UInt8) (nsecRecords : List DnsZoneRecord)
    (dnssecOk : Bool) (zsk : Option ZoneSigningKey) (signerName : Str)
    (soa : Option DnsZoneRecord) : Response :=
  match soa.bind (encodeAuthority lib) with
  | none => q.servfail
  | some encoded =>
      q.fitToTransport (q.respond (buildResponseFlags true false q.rd false false rcode) []
        (encoded :: nsecRecords.flatMap (denialRecords lib now dnssecOk zsk signerName))
        (q.optOrDefault dnssecOk))

def buildNodataResponse (lib : Externals) (now : Nat) := q.buildDenial lib now 0

def buildNxdomainResponse (lib : Externals) (now : Nat) := q.buildDenial lib now 3

/-- A refusal. It does not repeat the RD bit. -/
def buildRefused : Response :=
  q.respond (buildResponseFlags true false false false false 5) [] [] (q.opt false)

/-! ### What a response repeats -/

/-- The ID and the question of the query. -/
structure Repeats (r : Response) : Prop where
  id : r.id = q.id
  qname : r.qname = q.qname
  qtype : r.qtype = q.qtype

variable {q} {lib : Externals} {now : Nat} {records : List DnsZoneRecord} {dnssecOk : Bool}
  {zsk : Option ZoneSigningKey} {signerName : Str} {soa : Option DnsZoneRecord}

theorem repeats_respond (flags : UInt16) (answers authority additional : List EncodedRecord) :
    q.Repeats (q.respond flags answers authority additional) :=
  ⟨rfl, rfl, rfl⟩

theorem repeats_fitToTransport {r : Response} (h : q.Repeats r) :
    q.Repeats (q.fitToTransport r) := by
  unfold fitToTransport
  split
  · exact repeats_respond _ _ _ _
  · exact h

theorem repeats_buildResponse :
    q.Repeats (q.buildResponse lib now records dnssecOk zsk signerName) := by
  unfold buildResponse
  simp only
  split
  · exact repeats_respond _ _ _ _
  · exact repeats_fitToTransport (repeats_respond _ _ _ _)

theorem repeats_buildUnsigned (rcode : UInt8) : q.Repeats (q.buildUnsigned lib rcode soa) := by
  unfold buildUnsigned
  split <;> exact repeats_respond _ _ _ _

theorem repeats_buildDenial (rcode : UInt8) :
    q.Repeats (q.buildDenial lib now rcode records dnssecOk zsk signerName soa) := by
  unfold buildDenial
  split
  · exact repeats_respond _ _ _ _
  · exact repeats_fitToTransport (repeats_respond _ _ _ _)

/-! ### The RD bit

    It is the query's in all responses but refusals and ACME challenges. -/

/-- The four response codes in use. -/
def rcodes : List UInt8 := [0, 2, 3, 5]

theorem forall_rcodes {P : UInt8 → Prop} : (∀ rcode ∈ rcodes, P rcode) ↔ P 0 ∧ P 2 ∧ P 3 ∧ P 5 := by
  simp [rcodes]

theorem recursionDesired_respond {truncated : Bool} {rcode : UInt8} (hrcode : rcode ∈ rcodes)
    (answers authority additional : List EncodedRecord) :
    (q.respond (buildResponseFlags true truncated q.rd false false rcode) answers authority
      additional).recursionDesired = q.rd := by
  have hflags : ∀ rd truncated : Bool, ∀ rcode ∈ rcodes,
      (buildResponseFlags true truncated rd false false rcode &&& 0x0100 != 0) = rd := by
    simp only [forall_rcodes]
    decide
  exact hflags q.rd truncated rcode hrcode

theorem recursionDesired_fitToTransport {r : Response} (h : r.recursionDesired = q.rd) :
    (q.fitToTransport r).recursionDesired = q.rd := by
  unfold fitToTransport
  split
  · exact recursionDesired_respond (by decide) _ _ _
  · exact h

theorem recursionDesired_buildResponse :
    (q.buildResponse lib now records dnssecOk zsk signerName).recursionDesired = q.rd := by
  unfold buildResponse
  simp only
  split
  · exact recursionDesired_respond (by decide) _ _ _
  · exact recursionDesired_fitToTransport (recursionDesired_respond (by decide) _ _ _)

theorem recursionDesired_buildUnsigned {rcode : UInt8} (hrcode : rcode ∈ rcodes) :
    (q.buildUnsigned lib rcode soa).recursionDesired = q.rd := by
  unfold buildUnsigned
  split
  · exact recursionDesired_respond (by decide) _ _ _
  · exact recursionDesired_respond hrcode _ _ _

theorem recursionDesired_buildDenial {rcode : UInt8} (hrcode : rcode ∈ rcodes) :
    (q.buildDenial lib now rcode records dnssecOk zsk signerName soa).recursionDesired = q.rd := by
  unfold buildDenial
  split
  · exact recursionDesired_respond (by decide) _ _ _
  · exact recursionDesired_fitToTransport (recursionDesired_respond hrcode _ _ _)

/-! ### Answer sections -/

theorem answers_fitToTransport {r : Response} {e : EncodedRecord}
    (h : e ∈ (q.fitToTransport r).answers) : e ∈ r.answers := by
  unfold fitToTransport at h
  split at h
  · cases h
  · exact h

theorem answers_buildUnsigned (rcode : UInt8) : (q.buildUnsigned lib rcode soa).answers = [] := by
  unfold buildUnsigned
  split <;> rfl

theorem answers_buildDenial (rcode : UInt8) :
    (q.buildDenial lib now rcode records dnssecOk zsk signerName soa).answers = [] := by
  refine List.eq_nil_iff_forall_not_mem.mpr fun e he => ?_
  unfold buildDenial at he
  split at he
  · cases he
  · cases answers_fitToTransport he

theorem recordType_of_encodeRr {record : DnsZoneRecord} {compression : Option (Str × UInt16)}
    {e : EncodedRecord} (h : encodeRr lib record compression = .ok e) :
    e.recordType = record.recordType := by
  unfold encodeRr at h
  cases hrdata : encodeRdata lib record with
  | error reason =>
    rw [hrdata] at h
    cases h
  | ok rdata =>
    rw [hrdata] at h
    cases h
    rfl

theorem mem_encodeAll {compression : Option (Str × UInt16)} {e : EncodedRecord} :
    e ∈ encodeAll lib compression records ↔
      ∃ record ∈ records, encodeRr lib record compression = .ok e := by
  unfold encodeAll
  rw [List.mem_filterMap]
  refine exists_congr fun record => and_congr_right fun _ => ?_
  cases encodeRr lib record compression <;> simp [Except.toOption]

theorem recordType_rrsigRecord {record sig : DnsZoneRecord} {key : ZoneSigningKey}
    (h : rrsigRecord lib now signerName key record = some sig) : sig.recordType = .rrsig := by
  unfold rrsigRecord at h
  simp only at h
  split at h
  · cases h
  · obtain rfl := Option.some.inj h
    rfl

theorem recordType_of_mem_rrsigs {e : EncodedRecord}
    (h : e ∈ q.rrsigs lib now records dnssecOk zsk signerName) : e.recordType = .rrsig := by
  unfold rrsigs at h
  split at h
  · split at h
    · obtain ⟨sig, hsig, hencoded⟩ := mem_encodeAll.mp h
      obtain ⟨record, -, hrrsig⟩ := List.mem_filterMap.mp hsig
      rw [recordType_of_encodeRr hencoded, recordType_rrsigRecord hrrsig]
    · cases h
  · cases h

/-- An answer has the types of its records, and signatures. -/
theorem recordType_of_mem_buildResponse {e : EncodedRecord}
    (h : e ∈ (q.buildResponse lib now records dnssecOk zsk signerName).answers) :
    e.recordType = .rrsig ∨ ∃ record ∈ records, e.recordType = record.recordType := by
  unfold buildResponse at h
  simp only at h
  split at h
  · cases h
  · rcases List.mem_append.mp (answers_fitToTransport h) with hanswer | hsig
    · obtain ⟨record, hrecord, hencoded⟩ := mem_encodeAll.mp hanswer
      exact .inr ⟨record, hrecord, recordType_of_encodeRr hencoded⟩
    · exact .inl (recordType_of_mem_rrsigs hsig)

/-! ### Codes and sections -/

theorem rcode_respond {truncated rd : Bool} {rcode : UInt8} (hrcode : rcode ∈ rcodes)
    (answers authority additional : List EncodedRecord) :
    (q.respond (buildResponseFlags true truncated rd false false rcode) answers authority
      additional).rcode = rcode.toUInt16 := by
  have hflags : ∀ rd truncated : Bool, ∀ rcode ∈ rcodes,
      buildResponseFlags true truncated rd false false rcode &&& 0x000F = rcode.toUInt16 := by
    simp only [forall_rcodes]
    decide
  exact hflags rd truncated rcode hrcode

theorem truncated_tcResponse : q.buildTruncatedTcResponse.truncated = true := by
  have hflags : ∀ rd : Bool,
      (buildResponseFlags true true rd false false 0 &&& 0x0200 != 0) = true := by
    decide
  exact hflags q.rd

theorem fitToTransport_eq {r : Response} (h : (q.fitToTransport r).truncated = false) :
    q.fitToTransport r = r := by
  unfold fitToTransport at h ⊢
  split at h
  · rw [truncated_tcResponse] at h
    cases h
  · next hfits => rw [if_neg hfits]

theorem rcode_servfail : q.servfail.rcode = 2 := rcode_respond (by decide) _ _ _

/-- The code of a negative answer without NSEC records. -/
theorem rcode_buildUnsigned {rcode : UInt8} (hrcode : rcode ∈ rcodes) :
    (q.buildUnsigned lib rcode soa).rcode =
      if (soa.bind (encodeAuthority lib)).isSome then rcode.toUInt16 else 2 := by
  unfold buildUnsigned
  cases soa.bind (encodeAuthority lib) with
  | none => exact rcode_servfail
  | some encoded => exact rcode_respond hrcode _ _ _

end QuestionContext

end Synvoid.Dns
