import Synvoid.Dns.AuthoritativeAnswer

/-! # The DO bit and the answer

    Two queries for the same name and type, one with the DO bit and one without
    it. Up to the signed denial the handler goes through the same sources for
    both, so the answers differ in signatures only, unless one of them does not
    fit and is truncated.

    A query with the DO bit for which none of these sources has an answer is
    denied by NSEC or NSEC3 records, by tests of its own. They agree with the
    ordinary lookup where `DenialAgrees` holds: the name in the query is in
    lower case and one zone alone is at or above it.
-/

namespace Synvoid.Dns

open Synvoid.Framework

/-- The same response code and the same answers but for signatures. -/
def SameAnswer (r r' : Response) : Prop :=
  r.rcode = r'.rcode ∧ r.unsignedAnswers = r'.unsignedAnswers

/-- Two responses that are the same answer if both are complete. -/
def SameIfComplete (r r' : Response) : Prop :=
  r.truncated = false → r'.truncated = false → SameAnswer r r'

theorem SameAnswer.sameIfComplete {r r' : Response} (h : SameAnswer r r') : SameIfComplete r r' :=
  fun _ _ => h

/-! ### Codes and answers of the builders -/

namespace QuestionContext

variable {q q' : QuestionContext} {lib : Externals} {now now' : Nat}
  {records nsecRecords : List DnsZoneRecord} {dnssecOk dnssecOk' : Bool}
  {zsk zsk' : Option ZoneSigningKey} {signerName signerName' : Str} {soa : Option DnsZoneRecord}

theorem sameAnswer_servfail : SameAnswer q.servfail q'.servfail :=
  ⟨rcode_servfail.trans rcode_servfail.symm, rfl⟩

theorem sameAnswer_refused : SameAnswer q.buildRefused q'.buildRefused := by
  refine ⟨?_, rfl⟩
  unfold buildRefused
  rw [rcode_respond (by decide), rcode_respond (by decide)]

theorem compression_congr (hqname : q'.qname = q.qname) :
    q'.compression lib = q.compression lib := by
  unfold compression
  rw [hqname]

theorem filter_rrsigs :
    (q.rrsigs lib now records dnssecOk zsk signerName).filter (fun e => e.recordType ≠ .rrsig) =
      [] :=
  List.filter_eq_nil_iff.mpr fun e he => by simp [recordType_of_mem_rrsigs he]

/-- A complete answer: its code is 0 unless no record can be encoded, and its
    records are those that can. -/
theorem complete_buildResponse
    (hcomplete : (q.buildResponse lib now records dnssecOk zsk signerName).truncated = false) :
    (q.buildResponse lib now records dnssecOk zsk signerName).rcode =
        (if encodeAll lib (q.compression lib) records = [] ∧ records ≠ [] then 2 else 0) ∧
      (q.buildResponse lib now records dnssecOk zsk signerName).unsignedAnswers =
        (encodeAll lib (q.compression lib) records).filter fun e => e.recordType ≠ .rrsig := by
  unfold buildResponse at hcomplete ⊢
  simp only at hcomplete ⊢
  split at hcomplete
  · next hfailed =>
    rw [if_pos hfailed, if_pos hfailed, hfailed.1]
    exact ⟨rcode_servfail, rfl⟩
  · next hok =>
    rw [if_neg hok, if_neg hok, fitToTransport_eq hcomplete]
    refine ⟨rcode_respond (by decide) _ _ _, ?_⟩
    show List.filter _ (_ ++ _) = _
    rw [List.filter_append]
    -- what is appended are signatures
    rw [filter_rrsigs, List.append_nil]

theorem sameIfComplete_buildResponse (hqname : q'.qname = q.qname) :
    SameIfComplete (q.buildResponse lib now records dnssecOk zsk signerName)
      (q'.buildResponse lib now' records dnssecOk' zsk' signerName') := by
  intro hcomplete hcomplete'
  obtain ⟨hrcode, hanswers⟩ := complete_buildResponse hcomplete
  obtain ⟨hrcode', hanswers'⟩ := complete_buildResponse hcomplete'
  rw [compression_congr hqname] at hrcode' hanswers'
  exact ⟨hrcode.trans hrcode'.symm, hanswers.trans hanswers'.symm⟩

theorem sameIfComplete_acme (hqname : q'.qname = q.qname) (txtValue : Str) :
    SameIfComplete (q.buildAcmeTxtResponse lib txtValue)
      (q'.buildAcmeTxtResponse lib txtValue) := by
  intro hcomplete hcomplete'
  unfold buildAcmeTxtResponse at hcomplete hcomplete' ⊢
  simp only at hcomplete hcomplete' ⊢
  rw [fitToTransport_eq hcomplete, fitToTransport_eq hcomplete']
  constructor
  · rw [rcode_respond (by decide), rcode_respond (by decide)]
  · show List.filter _ (encodeAll lib _ _) = List.filter _ (encodeAll lib _ _)
    have hcompression : QuestionContext.compression { q' with qtype := 16, rd := false } lib =
        QuestionContext.compression { q with qtype := 16, rd := false } lib :=
      compression_congr hqname
    rw [hcompression, hqname]

/-- A complete denial has the code of the answer without NSEC records. -/
theorem sameAnswer_denial {rcode : UInt8} (hrcode : rcode ∈ rcodes)
    (hcomplete : (q'.buildDenial lib now rcode nsecRecords dnssecOk zsk signerName soa).truncated =
      false) :
    SameAnswer (q.buildUnsigned lib rcode soa)
      (q'.buildDenial lib now rcode nsecRecords dnssecOk zsk signerName soa) := by
  constructor
  · rw [rcode_buildUnsigned hrcode]
    unfold buildDenial at hcomplete ⊢
    cases hsoa : soa.bind (encodeAuthority lib) with
    | none => exact rcode_servfail.symm
    | some encoded =>
      rw [hsoa] at hcomplete
      simp only at hcomplete ⊢
      rw [fitToTransport_eq hcomplete]
      exact (rcode_respond hrcode _ _ _).symm
  · unfold Response.unsignedAnswers
    rw [answers_buildUnsigned, answers_buildDenial]

end QuestionContext

/-! ### Pairs of sources -/

/-- The two responses are the same answer, if there are two. -/
def Agree (a b : Option Response) : Prop :=
  ∀ r r', a = some r → b = some r' → SameIfComplete r r'

theorem agree_orElse {a b : Option Response} {f g : Unit → Option Response}
    (hfirst : Option.Rel SameIfComplete a b) (hrest : a = none → Agree (f ()) (g ())) :
    Agree (a.orElse f) (b.orElse g) := by
  cases hfirst with
  | none => exact hrest rfl
  | some hsame =>
    intro r r' hr hr'
    obtain rfl := Option.some.inj hr
    obtain rfl := Option.some.inj hr'
    exact hsame

theorem rel_map {α : Type} {f g : α → Response} (a : Option α)
    (h : ∀ x, SameIfComplete (f x) (g x)) : Option.Rel SameIfComplete (a.map f) (a.map g) := by
  cases a with
  | none => exact .none
  | some x => exact .some (h x)

/-- The zones at or above a name that the suffix index finds, the closest
    first. -/
def ZoneStore.enclosing (lib : Externals) (store : ZoneStore) (qname : Str) : List Zone :=
  (suffixes lib qname).filterMap fun suffix => (store.suffixIndex.lookup suffix).bind store.get

theorem ZoneStore.findBySuffixWithFilter_eq (lib : Externals) (store : ZoneStore) (qname : Str)
    (filter : Zone → Bool) :
    store.findBySuffixWithFilter lib qname filter = (store.enclosing lib qname).find? filter := by
  unfold ZoneStore.findBySuffixWithFilter ZoneStore.enclosing
  induction suffixes lib qname with
  | nil => rfl
  | cons suffix rest ih =>
    rw [List.findSome?_cons, ih]
    cases hkey : store.suffixIndex.lookup suffix with
    | none => simp [hkey]
    | some originKey =>
      cases hzone : store.get originKey with
      | none => simp [hkey, hzone]
      | some zone =>
        cases hfilter : filter zone <;> simp [hkey, hzone, hfilter]

namespace Request

variable {env : ServerEnv} {req req' : Request} {origin owner : Str} {zone : Zone}
  {soa : DnsZoneRecord} {r r' : Response}

/-- The same query but for the ID, the RD bit, the EDNS options and the time. -/
structure SameQuestion (req req' : Request) : Prop where
  qname : req'.qname = req.qname
  qtype : req'.qtype = req.qtype
  clientIp : req'.clientIp = req.clientIp

theorem SameQuestion.recordType (h : SameQuestion req req') : req'.recordType = req.recordType := by
  unfold Request.recordType
  rw [h.qtype]

theorem SameQuestion.qnameLower (h : SameQuestion req req') :
    req'.qnameLower env = req.qnameLower env := by
  unfold Request.qnameLower
  rw [h.qname]

theorem SameQuestion.lookupName (h : SameQuestion req req') :
    req'.lookupName env origin = req.lookupName env origin := by
  unfold Request.lookupName Request.atApex Request.qnameLowerTrimmed
  rw [h.qnameLower, h.qname]

theorem SameQuestion.zoneFor (h : SameQuestion req req') : req'.zoneFor env = req.zoneFor env := by
  unfold Request.zoneFor
  rw [h.qnameLower]

theorem sameIfComplete_answerWith (h : SameQuestion req req') (records : List DnsZoneRecord)
    (key : Option ZoneSigningKey) (signerName signerName' : Str) :
    SameIfComplete (req.answerWith env records key signerName)
      (req'.answerWith env records key signerName') :=
  QuestionContext.sameIfComplete_buildResponse h.qname

theorem rel_exactAnswer (h : SameQuestion req req') :
    Option.Rel SameIfComplete (req.exactAnswer env origin zone)
      (req'.exactAnswer env origin zone) := by
  unfold exactAnswer
  rw [h.lookupName, h.recordType]
  cases zone.records.lookup (req.lookupName env origin, req.recordType) with
  | none => exact .none
  | some records => exact .some (sameIfComplete_answerWith h records _ _ _)

theorem isCnameLoop_congr (h : SameQuestion req req') (cnames : List DnsZoneRecord) :
    req'.isCnameLoop cnames = req.isCnameLoop cnames := by
  unfold isCnameLoop
  rw [h.qname]

theorem rel_cnameAnswer (h : SameQuestion req req') :
    Option.Rel SameIfComplete (req.cnameAnswer env origin zone)
      (req'.cnameAnswer env origin zone) := by
  unfold cnameAnswer
  rw [h.lookupName, h.recordType]
  split
  · cases hcnames : zone.records.lookup (req.lookupName env origin, .cname) with
    | none => exact .none
    | some cnames =>
      simp only [Option.bind_eq_bind, Option.bind_some, isCnameLoop_congr h]
      split
      · exact .some QuestionContext.sameAnswer_refused.sameIfComplete
      · exact .some (sameIfComplete_answerWith h cnames _ _ _)
  · exact .none

theorem atApex_congr (h : SameQuestion req req') :
    req'.atApex env origin = req.atApex env origin := by
  unfold atApex qnameLowerTrimmed
  rw [h.qnameLower]

theorem rel_anyAnswer (h : SameQuestion req req') :
    Option.Rel SameIfComplete (req.anyAnswer env origin zone)
      (req'.anyAnswer env origin zone) := by
  unfold anyAnswer
  rw [h.lookupName, h.qtype]
  split
  · simp only
    split
    · exact .some (sameIfComplete_answerWith h _ _ _ _)
    · unfold madeUpAnswer
      rw [h.recordType, h.qtype, atApex_congr h]
      simp only
      split
      · exact .some (sameIfComplete_answerWith h _ _ _ _)
      · split
        · exact rel_map _ fun ksk => sameIfComplete_answerWith h _ _ _ _
        · split
          · exact .some (sameIfComplete_answerWith h _ _ _ _)
          · split
            · exact rel_map _ fun ksk => sameIfComplete_answerWith h _ _ _ _
            · split
              · exact rel_map _ fun record => sameIfComplete_answerWith h _ _ _ _
              · exact .none
  · exact .none

theorem rel_meshAnswer (h : SameQuestion req req') :
    Option.Rel SameIfComplete (req.meshAnswer env) (req'.meshAnswer env) := by
  unfold meshAnswer
  rw [h.clientIp, h.qname, h.qtype]
  simp only [Option.bind_eq_bind]
  cases env.ctx.meshRegistry with
  | none => exact .none
  | some registry =>
    cases req.clientIp with
    | none => exact .none
    | some ip =>
      simp only [Option.bind_some]
      cases registry (trimEndMatches '.' req.qname) ip with
      | none => exact .none
      | some addresses =>
        simp only [Option.bind_some]
        split
        · exact .none
        · exact .some (sameIfComplete_answerWith h _ _ _ _)

theorem rel_dns64Answer (h : SameQuestion req req') :
    Option.Rel SameIfComplete (req.dns64Answer env origin) (req'.dns64Answer env origin) := by
  unfold dns64Answer
  rw [h.lookupName, h.clientIp, h.qname, h.qtype]
  split
  · simp only [Option.bind_eq_bind]
    cases env.ctx.dns64Translator with
    | none => exact .none
    | some translator =>
      simp only [Option.bind_some]
      split
      · cases env.ctx.zones.findBySuffix env.lib req.qname with
        | none => exact .none
        | some z =>
          simp only [Option.bind_some]
          cases z.records.lookup (req.lookupName env origin, .a) with
          | none => exact .none
          | some aRecords =>
            simp only [Option.bind_some]
            split
            · exact .none
            · exact .some (sameIfComplete_answerWith h _ _ _ _)
      · exact .none
  · exact .none

theorem rel_acmeAnswer (h : SameQuestion req req') :
    Option.Rel SameIfComplete (req.acmeAnswer env) (req'.acmeAnswer env) := by
  unfold acmeAnswer
  rw [h.qtype, h.qnameLower]
  split
  · exact .none
  · simp only [Option.bind_eq_bind]
    cases ("_acme-challenge.".toList).isPrefixOf? (req.qnameLower env) with
    | none => exact .none
    | some rest =>
      simp only [Option.bind_some]
      cases env.ctx.acmeDnsChallenges with
      | none => exact .none
      | some acmeChallenges =>
        simp only [Option.bind_some]
        cases acmeChallenges rest with
        | none => exact .none
        | some txtValue => exact .some (QuestionContext.sameIfComplete_acme h.qname txtValue)

/-! ### Denials -/

/-- The signed denial and the ordinary lookup look at one zone in one spelling:
    the name of the query is in lower case, it lies in `zone`, no other zone is
    at or above it, and it does not read as the origin below the origin. -/
structure OneSpelling (env : ServerEnv) (req : Request) (origin owner : Str) (zone : Zone)
    (soa : DnsZoneRecord) : Prop where
  lowerName : env.lib.toLowercase req.qname = req.qname
  served : ServedZone env.lib origin zone soa
  writtenOrigin : trimEndMatches '.' zone.origin = origin
  isOwner : IsOwner env req origin owner
  notOrigin : env.lib.toLowercase owner ≠ origin
  alone : env.ctx.zones.enclosing env.lib req.qname = [zone]

/-- No zone at or above the name uses NSEC or NSEC3, or the two lookups look at
    one zone in one spelling. -/
def DenialAgrees (env : ServerEnv) (req : Request) (origin : Str) (zone : Zone) : Prop :=
  (∀ z ∈ env.ctx.zones.enclosing env.lib req.qname, nsecZone z = false) ∨
    ∃ owner soa, OneSpelling env req origin owner zone soa

/-- The test for NODATA, on a name in the zone's own spelling. -/
theorem isNodata_iff (h : OneSpelling env req origin owner zone soa) {recordType : RecordType} :
    isNodata zone req.qname recordType = true ↔
      HasRecords zone owner ∧ zone.records.lookup (owner, recordType) = none := by
  have hqname : req.qname = origin ∧ owner = apex ∨ req.qname = owner ++ '.' :: origin := by
    have howner := h.isOwner
    unfold IsOwner qnameLower at howner
    rwa [h.lowerName] at howner
  unfold isNodata
  rw [h.writtenOrigin]
  have hsuffix : origin <:+ req.qname ∨ req.qname = origin := by
    rcases hqname with ⟨heq, -⟩ | heq
    · exact .inr heq
    · exact .inl ⟨owner ++ ['.'], by simp [heq]⟩
  have hlookup : (if req.qname = origin then apex
      else if '.' :: origin <:+ req.qname then
        req.qname.take (req.qname.length - origin.length - 1)
      else req.qname) = owner := by
    rcases hqname with ⟨heq, rfl⟩ | heq
    · rw [if_pos heq]
    · have hne : req.qname ≠ origin := by
        intro hsame
        have hlength := congrArg List.length (heq.symm.trans hsame)
        simp only [List.length_append, List.length_cons] at hlength
        omega
      rw [if_neg hne, if_pos (heq ▸ List.suffix_append owner _), heq]
      have hlength : (owner ++ '.' :: origin).length - origin.length - 1 = owner.length := by
        simp only [List.length_append, List.length_cons]
        omega
      rw [hlength, List.take_left']
      rfl
  rw [if_pos hsuffix]
  simp only [hlookup]
  have hname : (∃ key ∈ zone.records.keys, (key.1 == owner) = true) ↔ HasRecords zone owner := by
    rw [← mem_keys_iff]
    simp
  have htype : (∃ key ∈ zone.records.keys, (key.1 == owner && key.2 == recordType) = true) ↔
      (zone.records.lookup (owner, recordType)).isSome = true := by
    rw [AList.lookup_isSome]
    simp
    rfl
  rw [Bool.and_eq_true, Bool.not_eq_true', Bool.eq_false_iff, Ne, List.any_eq_true,
    List.any_eq_true]
  show (∃ key ∈ zone.records.keys, (key.1 == owner) = true) ∧
    ¬ (∃ key ∈ zone.records.keys, (key.1 == owner && key.2 == recordType) = true) ↔ _
  rw [hname, htype]
  simp

theorem OneSpelling.congr (h : OneSpelling env req origin owner zone soa)
    (hsame : SameQuestion req req') : OneSpelling env req' origin owner zone soa where
  lowerName := by rw [hsame.qname, h.lowerName]
  served := h.served
  writtenOrigin := h.writtenOrigin
  isOwner := by
    unfold IsOwner
    rw [hsame.qnameLower]
    exact h.isOwner
  notOrigin := h.notOrigin
  alone := by rw [hsame.qname, h.alone]

theorem sameAnswer_buildUnsigned {q q' : QuestionContext} {lib : Externals} {rcode : UInt8}
    (hrcode : rcode ∈ QuestionContext.rcodes) (soa : Option DnsZoneRecord) :
    SameAnswer (q.buildUnsigned lib rcode soa) (q'.buildUnsigned lib rcode soa) := by
  constructor
  · rw [QuestionContext.rcode_buildUnsigned hrcode, QuestionContext.rcode_buildUnsigned hrcode]
  · unfold Response.unsignedAnswers
    rw [QuestionContext.answers_buildUnsigned, QuestionContext.answers_buildUnsigned]

theorem agree_ordinaryAnswer (h : SameQuestion req req') :
    Agree (req.ordinaryAnswer env origin zone) (req'.ordinaryAnswer env origin zone) := by
  intro r r' hr hr'
  unfold ordinaryAnswer at hr hr'
  rw [h.lookupName, h.qtype] at hr'
  cases hlookup : zone.lookupAuthoritative env.lib (req.lookupName env origin) req.qtype with
  | noData origin qname qtype soa =>
    rw [hlookup] at hr hr'
    cases hr
    cases hr'
    exact (sameAnswer_buildUnsigned (by decide) soa).sameIfComplete
  | nxDomain origin qname qtype soa =>
    rw [hlookup] at hr hr'
    cases hr
    cases hr'
    exact (sameAnswer_buildUnsigned (by decide) soa).sameIfComplete
  | positive origin qname qtype records =>
    rw [hlookup] at hr
    cases hr
  | cname origin qname cnames =>
    rw [hlookup] at hr
    cases hr
  | noAuthoritativeZone qname qtype =>
    rw [hlookup] at hr
    cases hr

theorem denial_eq_none
    (hnone : ∀ z ∈ env.ctx.zones.enclosing env.lib req.qname, nsecZone z = false) :
    req.denial env = none := by
  have hfind : ∀ test : Zone → Bool, (∀ z, test z = true → nsecZone z = true) →
      env.ctx.zones.findBySuffixWithFilter env.lib req.qname test = none := by
    intro test htest
    rw [ZoneStore.findBySuffixWithFilter_eq, List.find?_eq_none]
    intro z hz hpos
    have hnsec := htest z hpos
    rw [hnone z hz] at hnsec
    cases hnsec
  have hnodata : req.nodataDenial env = none := by
    unfold nodataDenial nodataZone
    rw [hfind _ fun z hz => (Bool.and_eq_true_iff.mp hz).1]
    rfl
  have hnxdomain : req.nxdomainDenial env = none := by
    unfold nxdomainDenial nxdomainZone
    rw [hfind _ fun z hz => hz]
    rfl
  unfold denial
  rw [hnodata, hnxdomain]
  split <;> rfl

/-- NODATA by the signed denial, in the one zone. -/
theorem nodataDenial_eq (h : OneSpelling env req origin owner zone soa)
    (hnsec : nsecZone zone = true)
    (hexact : zone.records.lookup (owner, req.recordType) = none) (howner : HasRecords zone owner) :
    req.nodataDenial env =
      some (req.buildNodataResponse env.lib req.now (req.nodataRecords env zone) req.dnssecOk
        zone.zskKey zone.origin (some soa)) := by
  have hnodata := (isNodata_iff h).mpr ⟨howner, hexact⟩
  unfold nodataDenial nodataZone
  rw [ZoneStore.findBySuffixWithFilter_eq, h.alone]
  have hsoa : apexSoa zone = some soa := h.served.soa
  simp [hnsec, hnodata, hsoa]

theorem nodataDenial_eq_none (h : OneSpelling env req origin owner zone soa)
    (howner : ¬ HasRecords zone owner) : req.nodataDenial env = none := by
  have hnodata : isNodata zone req.qname req.recordType = false :=
    Bool.eq_false_iff.mpr fun htest => howner ((isNodata_iff h).mp htest).1
  unfold nodataDenial nodataZone
  rw [ZoneStore.findBySuffixWithFilter_eq, h.alone]
  simp [hnodata]

/-- NXDOMAIN by the signed denial, in the one zone. -/
theorem nxdomainDenial_eq (h : OneSpelling env req origin owner zone soa)
    (hnsec : nsecZone zone = true) :
    req.nxdomainDenial env =
      if req.nxdomainRecords env zone = [] then none
      else some (req.buildNxdomainResponse env.lib req.now (req.nxdomainRecords env zone)
        req.dnssecOk zone.zskKey zone.origin (some soa)) := by
  unfold nxdomainDenial nxdomainZone
  rw [ZoneStore.findBySuffixWithFilter_eq, h.alone]
  have hsoa : apexSoa zone = some soa := h.served.soa
  simp only [List.find?_singleton, hnsec, if_true, Option.bind_eq_bind, Option.bind_some, hsoa]
  rfl

/-- The signed denial and the ordinary lookup of the query without the DO bit. -/
theorem agree_denial (hlower : LowercasesAscii env.lib) (hsame : SameQuestion req req')
    (h : OneSpelling env req origin owner zone soa) (hnsec : nsecZone zone = true)
    (hexact : zone.records.lookup (req.lookupName env origin, req.recordType) = none) :
    Agree (req.ordinaryAnswer env origin zone)
      (((req'.nodataDenial env).orElse fun _ => req'.nxdomainDenial env).orElse fun _ =>
        req'.ordinaryAnswer env origin zone) := by
  have h' := h.congr hsame
  have hname := lookupName_eq hlower h.served h.isOwner
  cases hcname : zone.records.lookup (req.lookupName env origin, .cname) with
  | some cnames =>
    -- the ordinary lookup finds the CNAME and does not respond
    have hordinary : req.ordinaryAnswer env origin zone = none := by
      unfold ordinaryAnswer Zone.lookupAuthoritative
      unfold recordType at hexact
      rw [hexact]
      simp only [hcname]
    intro r r' hr
    rw [hordinary] at hr
    cases hr
  | none =>
    have hordinary := ordinaryAnswer_eq h.served hexact hcname
    rw [hname] at hordinary hexact
    have hexists := ownerExists_iff h.served h.notOrigin
    by_cases howner : HasRecords zone owner
    · rw [if_pos (hexists.mpr howner)] at hordinary
      rw [hordinary, nodataDenial_eq h' hnsec (by rw [hsame.recordType, hexact]) howner]
      intro r r' hr hr'
      cases hr
      cases hr'
      exact fun _ hcomplete => QuestionContext.sameAnswer_denial (by decide) hcomplete
    · rw [if_neg fun htest => howner (hexists.mp htest)] at hordinary
      rw [nodataDenial_eq_none h' howner, nxdomainDenial_eq h' hnsec, Option.orElse_none]
      split
      · exact agree_ordinaryAnswer hsame
      · rw [hordinary]
        intro r r' hr hr'
        cases hr
        cases hr'
        exact fun _ hcomplete => QuestionContext.sameAnswer_denial (by decide) hcomplete

/-! ### The two answers -/

theorem exactAnswer_eq_none (h : req.exactAnswer env origin zone = none) :
    zone.records.lookup (req.lookupName env origin, req.recordType) = none := by
  cases hlookup : zone.records.lookup (req.lookupName env origin, req.recordType) with
  | none => rfl
  | some records =>
    unfold exactAnswer at h
    rw [hlookup] at h
    cases h

theorem agree_zoneAnswer (hlower : LowercasesAscii env.lib) (hsame : SameQuestion req req')
    (hdo : req.dnssecOk = false) (hdo' : req'.dnssecOk = true)
    (hdenial : DenialAgrees env req origin zone) :
    Agree (req.zoneAnswer env origin zone) (req'.zoneAnswer env origin zone) := by
  unfold zoneAnswer
  refine agree_orElse (rel_exactAnswer hsame) fun hexact => ?_
  refine agree_orElse (rel_cnameAnswer hsame) fun _ => ?_
  refine agree_orElse (rel_anyAnswer hsame) fun _ => ?_
  refine agree_orElse (rel_meshAnswer hsame) fun _ => ?_
  refine agree_orElse (rel_dns64Answer hsame) fun _ => ?_
  have hnone : req.denial env = none := by simp [denial, hdo]
  rw [hnone, Option.orElse_none]
  by_cases hnsec : ∀ z ∈ env.ctx.zones.enclosing env.lib req.qname, nsecZone z = false
  · rw [denial_eq_none (by rwa [hsame.qname]), Option.orElse_none]
    exact agree_ordinaryAnswer hsame
  · obtain ⟨owner, soa, hspelling⟩ := hdenial.resolve_left hnsec
    have hzone : nsecZone zone = true := by
      rw [hspelling.alone] at hnsec
      simpa using hnsec
    unfold denial
    rw [if_pos hdo']
    exact agree_denial hlower hsame hspelling hzone (exactAnswer_eq_none hexact)

/-- **The DO bit does not change the answer**: two responses to the same question
    that are not truncated have the same code and the same answers but for
    signatures. -/
theorem dnssecOk_keeps_answer (env : ServerEnv) (req req' : Request)
    (hlower : LowercasesAscii env.lib) (hsame : SameQuestion req req')
    (hdo : req.dnssecOk = false) (hdo' : req'.dnssecOk = true)
    (hdenial : ∀ origin zone, req.zoneFor env = some (origin, zone) →
      DenialAgrees env req origin zone)
    (r r' : Response) (hr : req.answer env = some r) (hr' : req'.answer env = some r')
    (hcomplete : r.truncated = false) (hcomplete' : r'.truncated = false) :
    SameAnswer r r' := by
  have hagree : Agree (req.answer env) (req'.answer env) := by
    unfold answer
    refine agree_orElse (rel_acmeAnswer hsame) fun _ => ?_
    simp only [hsame.zoneFor]
    cases hfor : req.zoneFor env with
    | none =>
      intro r r' hr hr'
      cases hr
      cases hr'
      exact QuestionContext.sameAnswer_refused.sameIfComplete
    | some found =>
      simp only
      split
      · intro r r' hr hr'
        cases hr
        cases hr'
        exact QuestionContext.sameAnswer_servfail.sameIfComplete
      · exact agree_zoneAnswer hlower hsame hdo hdo' (hdenial _ _ hfor)
  exact hagree r r' hr hr' hcomplete hcomplete'

/-! ### A small zone -/

def hostKey : ZoneSigningKey where
  algorithm := 15
  flags := 256
  publicKey := List.replicate 32 1
  keyTag := 4711
  sign := fun _ => some (List.replicate 64 9)

/-- A signed zone with `count` addresses of `host.example.com`. -/
def signedHost (count : Nat) (nsecEnabled : Bool) : Zone :=
  { exampleZone [(("host".toList, .a),
      List.replicate count (exampleRecord "host" .a "192.0.2.8"))] with
    zskKey := some hostKey
    nsecEnabled := nsecEnabled }

/-- A query with an OPT record. -/
def ednsRequest (qname : String) (qtype : UInt16) (dnssecOk : Bool) : Request :=
  exampleRequest qname qtype (some { udpPayloadSize := 4096, dnssecOk := dnssecOk })

theorem sameQuestion_ednsRequest (qname : String) (qtype : UInt16) :
    SameQuestion (ednsRequest qname qtype false) (ednsRequest qname qtype true) :=
  ⟨rfl, rfl, rfl⟩

theorem oneSpelling_signedHost :
    OneSpelling (serve (signedHost 1 true)) (ednsRequest "host.example.com" 28 false)
      exampleOrigin "host".toList (signedHost 1 true) exampleSoa where
  lowerName := by decide
  served := ⟨by decide, by decide, by decide, by decide, rfl⟩
  writtenOrigin := by decide
  isOwner := .inr (by decide)
  notOrigin := by decide
  alone := rfl

theorem denialAgrees_signedHost (origin : Str) (zone : Zone)
    (h : (ednsRequest "host.example.com" 28 false).zoneFor (serve (signedHost 1 true)) =
      some (origin, zone)) :
    DenialAgrees (serve (signedHost 1 true)) (ednsRequest "host.example.com" 28 false) origin
      zone := by
  have hfor : (ednsRequest "host.example.com" 28 false).zoneFor (serve (signedHost 1 true)) =
      some (exampleOrigin, signedHost 1 true) := rfl
  rw [hfor] at h
  cases h
  exact .inr ⟨_, _, oneSpelling_signedHost⟩

/-- NODATA with and without the DO bit. -/
theorem dnssecOk_keeps_nodata :
    ∃ r r', (ednsRequest "host.example.com" 28 false).answer (serve (signedHost 1 true)) =
        some r ∧
      (ednsRequest "host.example.com" 28 true).answer (serve (signedHost 1 true)) = some r' ∧
      SameAnswer r r' := by
  have hcomplete : ∀ dnssecOk, (((ednsRequest "host.example.com" 28 dnssecOk).answer
      (serve (signedHost 1 true))).map Response.truncated) = some false := by
    decide +kernel
  obtain ⟨r, hr, htruncated⟩ := Option.map_eq_some_iff.mp (hcomplete false)
  obtain ⟨r', hr', htruncated'⟩ := Option.map_eq_some_iff.mp (hcomplete true)
  exact ⟨r, r', hr, hr', dnssecOk_keeps_answer _ _ _ lowercasesAscii_asciiExternals
    (sameQuestion_ednsRequest _ _) rfl rfl denialAgrees_signedHost r r' hr hr' htruncated
    htruncated'⟩

/-- Forty signed addresses do not fit into 4096 bytes, and `Host.example.com` is
    not found by the test for NODATA. -/
theorem dnssecOk_changes_answer :
    (∃ r r', (ednsRequest "host.example.com" 1 false).answer (serve (signedHost 40 false)) =
        some r ∧
      (ednsRequest "host.example.com" 1 true).answer (serve (signedHost 40 false)) = some r' ∧
      r'.truncated = true ∧ ¬ SameAnswer r r') ∧
    ∃ r r', (ednsRequest "Host.example.com" 28 false).answer (serve (signedHost 1 true)) =
        some r ∧
      (ednsRequest "Host.example.com" 28 true).answer (serve (signedHost 1 true)) = some r' ∧
      ¬ SameAnswer r r' := by
  constructor
  · have hanswers : ∀ dnssecOk, (((ednsRequest "host.example.com" 1 dnssecOk).answer
        (serve (signedHost 40 false))).map fun r => (r.truncated, r.unsignedAnswers.length)) =
          some (dnssecOk, if dnssecOk then 0 else 40) := by
      decide +kernel
    obtain ⟨r, hr, hlength⟩ := Option.map_eq_some_iff.mp (hanswers false)
    obtain ⟨r', hr', hlength'⟩ := Option.map_eq_some_iff.mp (hanswers true)
    refine ⟨r, r', hr, hr', (Prod.mk.inj hlength').1, fun hsame => ?_⟩
    have hcount := (Prod.mk.inj hlength).2
    rw [hsame.2, (Prod.mk.inj hlength').2] at hcount
    cases hcount
  · have hrcodes : ∀ dnssecOk, (((ednsRequest "Host.example.com" 28 dnssecOk).answer
        (serve (signedHost 1 true))).map Response.rcode) = some (if dnssecOk then 3 else 0) := by
      decide +kernel
    obtain ⟨r, hr, hrcode⟩ := Option.map_eq_some_iff.mp (hrcodes false)
    obtain ⟨r', hr', hrcode'⟩ := Option.map_eq_some_iff.mp (hrcodes true)
    refine ⟨r, r', hr, hr', fun hsame => ?_⟩
    rw [hsame.1, hrcode'] at hrcode
    revert hrcode
    decide

end Request

end Synvoid.Dns
