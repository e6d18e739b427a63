import Synvoid.Dns.QueryHandler

/-! # Publishing the keys of a signed zone

    A validator needs the DNSKEY records of a zone to check its signatures, and
    a parent the CDS and CDNSKEY records. The handler has branches that answer
    such queries from the keys of the zone, but they stand inside the branch for
    queries of type ANY, where the query has none of these types. So no query
    is ever answered by them (`keys_never_published`).
-/

namespace Synvoid.Dns

open Synvoid.Framework

namespace Request

/-- DNSKEY, CDS, CDNSKEY and NSEC3PARAM. -/
def keyTypes : List UInt16 := [48, 59, 60, 51]

theorem forall_keyTypes {P : UInt16 → Prop} :
    (∀ qtype ∈ keyTypes, P qtype) ↔ P 48 ∧ P 59 ∧ P 60 ∧ P 51 := by
  simp [keyTypes]

/-- The records of a type that are built from the keys and parameters of a
    zone. -/
def publishedRecords (hashes : Hashes) (zone : Zone) (qtype : UInt16) : List DnsZoneRecord :=
  if qtype = 48 then buildDnskeyRecords zone
  else if qtype = 59 then (zone.kskKey.map (buildCdsRecords hashes)).getD []
  else if qtype = 60 then buildCdnskeyRecords zone
  else (buildNsec3paramRecord zone).toList

/-- The query is answered positively, with the records the zone builds and no
    others but signatures. -/
def Publishes (env : ServerEnv) (req : Request) (zone : Zone) : Prop :=
  ∃ r, req.answer env = some r ∧ r.rcode = 0 ∧ r.unsignedAnswers ≠ [] ∧
    List.Forall₂ (fun e record => encodeRr env.lib record (req.compression env.lib) = .ok e)
      r.unsignedAnswers (publishedRecords env.hashes zone req.qtype)

/-- A signed zone without records of these types of its own. -/
structure SignedZone (zone : Zone) : Prop where
  ksk : zone.kskKey.isSome = true
  zsk : zone.zskKey.isSome = true
  notStored : ∀ name, ∀ qtype ∈ keyTypes,
    zone.records.lookup (name, RecordType.ofCode qtype) = none

variable {env : ServerEnv} {req : Request} {origin : Str} {zone : Zone} {r : Response}

theorem recordType_of_mem_published {hashes : Hashes} {qtype : UInt16} (hqtype : qtype ∈ keyTypes)
    {record : DnsZoneRecord} (h : record ∈ publishedRecords hashes zone qtype) :
    record.recordType = RecordType.ofCode qtype := by
  have hcases : qtype = 48 ∨ qtype = 59 ∨ qtype = 60 ∨ qtype = 51 := by
    simpa [keyTypes] using hqtype
  rcases hcases with rfl | rfl | rfl | rfl
  · obtain ⟨key, -, rfl⟩ := List.mem_map.mp h
    rfl
  · cases hksk : zone.kskKey with
    | none => simp [publishedRecords, hksk] at h
    | some ksk =>
      have hcds : record ∈ buildCdsRecords hashes ksk := by
        simpa [publishedRecords, hksk] using h
      rcases List.mem_cons.mp hcds with rfl | hcds
      · rfl
      · rcases List.mem_singleton.mp hcds with rfl
        rfl
  · obtain ⟨key, -, rfl⟩ := List.mem_map.mp h
    rfl
  · cases hparam : zone.nsec3param with
    | none => simp [publishedRecords, buildNsec3paramRecord, hparam] at h
    | some config =>
      obtain rfl : record = madeRecord apex .nsec3param (createNsec3paramRecord config)
          zone.keyTtl := by
        simpa [publishedRecords, buildNsec3paramRecord, hparam] using h
      rfl

/-- An answer to such a query holds addresses from the mesh, if anything. -/
theorem recordType_of_mem_answers (hqtype : req.qtype ∈ keyTypes) (hzone : SignedZone zone)
    (hfor : req.zoneFor env = some (origin, zone)) (h : req.answer env = some r)
    {e : EncodedRecord} (he : e ∈ r.answers) : e.recordType = .rrsig ∨ e.recordType = .a := by
  have hother : req.qtype ≠ 16 ∧ req.qtype ≠ 28 ∧ req.qtype ≠ 255 ∧
      req.recordType ≠ .unknown ∧ req.recordType ≠ .a := by
    have hall : ∀ qtype ∈ keyTypes, qtype ≠ 16 ∧ qtype ≠ 28 ∧ qtype ≠ 255 ∧
        RecordType.ofCode qtype ≠ .unknown ∧ RecordType.ofCode qtype ≠ .a := by
      rw [forall_keyTypes]
      decide
    exact hall req.qtype hqtype
  obtain ⟨hacme, haaaa, hany, hnull, ha⟩ := hother
  rcases answer_eq_some h with hsome | ⟨hnone, -⟩ | ⟨origin', zone', hfor', hrest⟩
  · simp [acmeAnswer, hacme] at hsome
  · rw [hfor] at hnone
    cases hnone
  · rw [hfor] at hfor'
    cases hfor'
    rcases hrest with rfl | hrest
    · cases he
    · rcases zoneAnswer_eq_some.mp hrest with hexact | ⟨-, hcname | ⟨-, hsome | ⟨-, hmesh |
        ⟨-, hdns64 | ⟨-, hdenial | ⟨-, hordinary⟩⟩⟩⟩⟩⟩
      · obtain ⟨records, hlookup, -⟩ := exactAnswer_eq_some.mp hexact
        unfold recordType at hlookup
        rw [hzone.notStored _ req.qtype hqtype] at hlookup
        cases hlookup
      · exact absurd (cnameAnswer_eq_some.mp hcname).1 (by simp [hnull, ha])
      · exact absurd (anyAnswer_eq_some hsome).1 hany
      · obtain ⟨addresses, key, rfl⟩ := meshAnswer_eq_some hmesh
        refine (QuestionContext.recordType_of_mem_buildResponse he).imp_right ?_
        rintro ⟨record, hrecord, htype⟩
        obtain ⟨ip, -, rfl⟩ := List.mem_map.mp hrecord
        simpa [haaaa] using htype
      · exact absurd (dns64Answer_eq_some hdns64).1 haaaa
      · obtain ⟨-, rcode, -, _, _, _, _, rfl⟩ := denial_eq_some hdenial
        rw [QuestionContext.answers_buildDenial] at he
        cases he
      · obtain ⟨rcode, -, _, rfl⟩ := ordinaryAnswer_eq_some hordinary
        rw [QuestionContext.answers_buildUnsigned] at he
        cases he

/-- **Key publication.** No query for the keys of a signed zone is answered with
    them, at the apex or elsewhere, whatever its letter case, its flags and the
    rest of the server's context. -/
theorem keys_never_published (env : ServerEnv) (req : Request) (origin : Str) (zone : Zone)
    (hzone : SignedZone zone) (hfor : req.zoneFor env = some (origin, zone))
    (hqtype : req.qtype ∈ keyTypes) :
    ¬ Publishes env req zone := by
  rintro ⟨r, hr, -, hne, hall⟩
  cases hanswers : r.unsignedAnswers with
  | nil => exact hne hanswers
  | cons e rest =>
    cases hpublished : publishedRecords env.hashes zone req.qtype with
    | nil =>
      rw [hanswers, hpublished] at hall
      cases hall
    | cons record records =>
      rw [hanswers, hpublished] at hall
      have hencoded := (List.forall₂_cons.mp hall).1
      have he : e ∈ r.unsignedAnswers := by simp [hanswers]
      obtain ⟨he, hnotSig⟩ := List.mem_filter.mp he
      -- the answer would have the type of the query, which is not an address
      have htype : e.recordType = RecordType.ofCode req.qtype := by
        rw [QuestionContext.recordType_of_encodeRr hencoded]
        exact recordType_of_mem_published hqtype (by rw [hpublished]; simp)
      rcases recordType_of_mem_answers hqtype hzone hfor hr he with hsig | haddress
      · simp [hsig] at hnotSig
      · have hnot : ∀ qtype ∈ keyTypes, RecordType.ofCode qtype ≠ .a := by
          rw [forall_keyTypes]
          decide
        exact hnot req.qtype hqtype (htype.symm.trans haddress)

/-! ### A signed zone -/

def exampleKey (flags : UInt16) : ZoneSigningKey where
  algorithm := 15
  flags := flags
  publicKey := List.replicate 32 1
  keyTag := 4660
  sign := fun _ => some (List.replicate 64 2)

def signedExample : Zone :=
  { exampleZone [] with kskKey := some (exampleKey 257), zskKey := some (exampleKey 256) }

theorem signedZone_signedExample : SignedZone signedExample where
  ksk := rfl
  zsk := rfl
  notStored := by
    intro name qtype hqtype
    have hsoa : ∀ qtype ∈ keyTypes, RecordType.ofCode qtype ≠ .soa := by
      rw [forall_keyTypes]
      decide
    show ((∅ : Table (Str × RecordType) (List DnsZoneRecord)).insert (apex, .soa)
      [exampleSoa]).lookup _ = none
    rw [Table.lookup_insert_eq, if_neg]
    · exact AList.lookup_empty _
    · exact fun heq => hsoa qtype hqtype (congrArg Prod.snd heq)

theorem zoneFor_signedExample (qtype : UInt16) :
    (exampleRequest "Example.com" qtype none).zoneFor (serve signedExample) =
      some (exampleOrigin, signedExample) := rfl

theorem dnskey_of_signedExample_not_published :
    ¬ Publishes (serve signedExample) (exampleRequest "Example.com" 48 none) signedExample :=
  keys_never_published _ _ exampleOrigin signedExample signedZone_signedExample
    (zoneFor_signedExample 48) (by decide)

theorem dnskey_query_denied :
    SignedZone signedExample ∧
    (exampleRequest "Example.com" 48 none).zoneFor (serve signedExample) =
      some (exampleOrigin, signedExample) ∧
    (exampleRequest "Example.com" 48 none).atApex (serve signedExample) exampleOrigin = true ∧
    ¬ Publishes (serve signedExample) (exampleRequest "Example.com" 48 none) signedExample := by
  refine ⟨signedZone_signedExample, zoneFor_signedExample 48, by decide, ?_⟩
  rintro ⟨r, hr, -, hne, -⟩
  -- the response is NODATA
  have hanswers : ((exampleRequest "Example.com" 48 none).answer (serve signedExample)).map
      Response.answers = some [] := by
    decide +kernel
  rw [hr] at hanswers
  exact hne (by simp [Response.unsignedAnswers, Option.some.inj hanswers])

end Request

end Synvoid.Dns
