import Synvoid.Dns.QueryResponse
import Synvoid.Framework.IpAddr

/-! # The query handler

    Model of `handle_parsed_query` (`synvoid-dns/src/server/query.rs`). After
    NOTIFY and UPDATE messages are handed on, the handler tries one source of
    an answer after the other: the RRset of the name and type, a CNAME, all
    records for ANY, the mesh, DNS64, a signed denial if the DO bit is set, and
    last the ordinary lookup of the zone. Each source is a definition of its
    own here and gives `none` where the handler goes on to the next.

    The handlers of other messages, the ACME challenges and the best edge node
    of the mesh are parameters of the context. DNS cookies are only logged and
    client subnets do not change the response: both are left out.
-/

namespace Synvoid.Dns

open Synvoid.Framework

structure Dns64Translator where
  enabled : Bool
  excludeAaaaSynthesis : Bool
  /-- The octets of the /96 network the IPv4 address is put behind. -/
  network : { octets : Bytes // octets.length = 12 }

def Dns64Translator.shouldSynthesize (translator : Dns64Translator) (qtype : UInt16)
    (clientIp : Option Framework.IpAddr) : Bool :=
  translator.enabled && !translator.excludeAaaaSynthesis && qtype == 28 &&
    match clientIp with
    | some (.v6 _) => true
    | _ => false

structure QueryContext where
  zones : ZoneStore
  zoneTrie : ZoneTrie
  negativeCacheTtl : UInt32
  notifyHandler : Option (Bytes → Framework.IpAddr → Option Bytes)
  updateHandler : Option (Bytes → Framework.IpAddr → Checked (Except Str Bytes))
  dns64Translator : Option Dns64Translator
  /-- The text for a domain with a pending challenge. -/
  acmeDnsChallenges : Option (Str → Option Str)
  /-- The addresses of the best edge node for a domain and a client. -/
  meshRegistry : Option (Str → Framework.IpAddr → Option (List Str))

/-- What does not change during a run: library code, hash functions and the
    context. -/
structure ServerEnv where
  lib : Externals
  hashes : Hashes
  ctx : QueryContext

def ParsedDnsQuery.isNotify (parsed : ParsedDnsQuery) : Bool := parsed.flags.opcode == 4

def ParsedDnsQuery.isUpdate (parsed : ParsedDnsQuery) : Bool := parsed.flags.opcode == 5

/-- What the handler reads behind the parsing of the query. -/
structure Request extends QuestionContext where
  clientIp : Option Framework.IpAddr
  /-- The second of the wall clock, for signatures. -/
  now : Nat

def Request.ofParsed (parsed : ParsedDnsQuery) (edns : Option EdnsOptions)
    (clientIp : Option Framework.IpAddr) (now : Nat) : Request where
  id := parsed.id
  qname := parsed.qname
  qtype := parsed.qtype
  rd := parsed.flags.recursionDesired
  edns := edns.map EdnsOptions.params
  clientIp := clientIp
  now := now

namespace Request

variable (env : ServerEnv) (req : Request)

def dnssecOk : Bool := (req.edns.map EdnsParams.dnssecOk).getD false

def recordType : RecordType := RecordType.ofCode req.qtype

def qnameLower : Str := env.lib.toLowercase req.qname

def qnameLowerTrimmed : Str := trimEndMatches '.' (req.qnameLower env)

/-- An answer with the given records, signed if the DO bit is set. -/
def answerWith (records : List DnsZoneRecord) (key : Option ZoneSigningKey) (signerName : Str) :
    Response :=
  req.buildResponse env.lib req.now records req.dnssecOk key signerName

/-! ### ACME challenges -/

def acmeAnswer : Option Response := do
  if req.qtype ≠ 16 then none
  else
    let rest ← ("_acme-challenge.".toList).isPrefixOf? (req.qnameLower env)
    let acmeChallenges ← env.ctx.acmeDnsChallenges
    let txtValue ← acmeChallenges rest
    return req.buildAcmeTxtResponse env.lib txtValue

/-! ### The zone of the name -/

/-- The closest zone of the trie, as it is in the store. -/
def zoneFor : Option (Str × Zone) := do
  let origin ← env.ctx.zoneTrie.findZone env.lib (req.qnameLower env)
  let zone ← env.ctx.zones.get origin
  return (origin, zone)

variable (origin : Str) (zone : Zone)

def originLower : Str := env.lib.toLowercase (trimEndMatches '.' origin)

def atApex : Bool := req.qnameLowerTrimmed env == originLower env origin

/-- The name relative to the origin. -/
def lookupName : Str :=
  let qnameLowerTrimmed := req.qnameLowerTrimmed env
  let suffix := '.' :: originLower env origin
  if req.atApex env origin ∨ req.qname = [] ∨ req.qname = apex then apex
  else if suffix <:+ qnameLowerTrimmed then
    qnameLowerTrimmed.take (qnameLowerTrimmed.length - suffix.length)
  else qnameLowerTrimmed

/-! ### Sources of an answer -/

/-- The RRset of the name and type. -/
def exactAnswer : Option Response := do
  let records ← zone.records.lookup (req.lookupName env origin, req.recordType)
  return req.answerWith env records zone.zskKey origin

/-- A CNAME whose first target is the name of the query. -/
def isCnameLoop (cnameRecords : List DnsZoneRecord) : Bool :=
  match cnameRecords with
  | [] => false
  | cname :: _ =>
      (trimEndMatches '.' cname.value).map Char.toLower ==
        (trimEndMatches '.' req.qname).map Char.toLower

def cnameAnswer : Option Response :=
  if req.recordType = .unknown ∨ req.recordType = .a then do
    let cnameRecords ← zone.records.lookup (req.lookupName env origin, .cname)
    if req.isCnameLoop cnameRecords then return req.buildRefused
    else return req.answerWith env cnameRecords zone.zskKey origin
  else none

/-- The types that ANY leaves out. -/
def anyExcluded : List RecordType :=
  [.soa, .ns, .dnskey, .ds, .rrsig, .nsec, .nsec3, .nsec3param]

/-- One record of the loop for ANY: only the first CNAME is taken. -/
def addAnyRecord (all : List DnsZoneRecord) (record : DnsZoneRecord) : List DnsZoneRecord :=
  if record.recordType = .cname then
    if all.any fun r => r.recordType = .cname then all else all ++ [record]
  else if record.recordType ∈ anyExcluded then all
  else all ++ [record]

def anyRecords (lookupName : Str) : List DnsZoneRecord :=
  (zone.records.entries.flatMap fun ⟨(name, _), records⟩ =>
    if name = lookupName ∨ name = apex ∧ lookupName = [] then records else []).foldl
      addAnyRecord []

/-- The branches for records the zone makes up. They stand inside the branch
    for ANY. -/
def madeUpAnswer : Option Response :=
  let apexQuery := req.atApex env origin
  if req.recordType = .dnskey ∧ apexQuery then
    some (req.answerWith env (buildDnskeyRecords zone) zone.kskKey origin)
  else if req.qtype = 59 ∧ apexQuery ∧ zone.kskKey.isSome then
    zone.kskKey.map fun ksk =>
      req.answerWith env (buildCdsRecords env.hashes ksk) zone.kskKey origin
  else if req.qtype = 60 ∧ apexQuery then
    some (req.answerWith env (buildCdnskeyRecords zone) zone.kskKey origin)
  else if req.recordType = .ds ∧ apexQuery ∧ zone.kskKey.isSome then
    zone.kskKey.map fun ksk =>
      req.answerWith env (buildDsRecords env.hashes ksk) zone.kskKey origin
  else if req.recordType = .nsec3param ∧ apexQuery then
    (buildNsec3paramRecord zone).map fun record =>
      req.answerWith env [record] zone.zskKey origin
  else none

def anyAnswer : Option Response :=
  if req.qtype = 255 then
    let allRecords := anyRecords zone (req.lookupName env origin)
    if allRecords ≠ [] then some (req.answerWith env allRecords zone.zskKey origin)
    else req.madeUpAnswer env origin zone
  else none

/-- `resolve_from_mesh`: the addresses of an edge node as records. -/
def meshRecords (qtype : UInt16) (addresses : List Str) : List DnsZoneRecord :=
  let recordType := if qtype = 28 then .aaaa else .a
  let matchesQuery := fun ip =>
    if qtype = 28 then (parseIpv6 ip).isSome else (parseIpv4 ip).isSome
  (addresses.filter matchesQuery).map fun ip =>
    { name := apex, recordType, value := ip, ttl := 60, priority := none }

def meshAnswer : Option Response := do
  let registry ← env.ctx.meshRegistry
  let ip ← req.clientIp
  let addresses ← registry (trimEndMatches '.' req.qname) ip
  let records := meshRecords req.qtype addresses
  if records = [] then none
  else
    let zsk := (env.ctx.zones.findBySuffix env.lib req.qname).bind Zone.zskKey
    return req.answerWith env records zsk req.qname

/-- An AAAA record made from an A record. -/
def synthesizeAaaa (translator : Dns64Translator) (record : DnsZoneRecord) :
    Option DnsZoneRecord :=
  (parseIpv4 record.value).map fun ipv4 =>
    { name := record.name, recordType := .aaaa, value := fmtIpv6 (translator.network.1 ++ ipv4),
      ttl := record.ttl, priority := none }

def dns64Answer : Option Response :=
  if req.qtype = 28 then do
    let translator ← env.ctx.dns64Translator
    if translator.shouldSynthesize 28 req.clientIp then
      let zone ← env.ctx.zones.findBySuffix env.lib req.qname
      let aRecords ← zone.records.lookup (req.lookupName env origin, .a)
      let aaaaRecords := aRecords.filterMap (synthesizeAaaa translator)
      if aaaaRecords = [] then none
      else
        -- the signer's name is not used, as there is no key
        return req.answerWith env aaaaRecords none []
    else none
  else none

/-! ### Signed denials -/

def nsecZone (z : Zone) : Bool := z.nsecEnabled || z.nsec3Enabled

/-- The first SOA record under `@`. -/
def apexSoa (z : Zone) : Option DnsZoneRecord :=
  (z.records.lookup (apex, .soa)).bind List.head?

/-- The zone that has the name but not the type. -/
def nodataZone : Option Zone :=
  env.ctx.zones.findBySuffixWithFilter env.lib req.qname fun z =>
    nsecZone z && isNodata z req.qname req.recordType

def nodataRecords (z : Zone) : List DnsZoneRecord :=
  if z.nsec3Enabled then buildNsec3Nodata env.lib env.hashes z req.qname req.recordType
  else buildNsecRecords env.lib z req.qname req.recordType

/-- NODATA: the name exists and the type does not. -/
def nodataDenial : Option Response := do
  let z ← req.nodataZone env
  return req.buildNodataResponse env.lib req.now (req.nodataRecords env z) req.dnssecOk z.zskKey
    z.origin (apexSoa z)

/-- The zone whose denial of existence is given for every other name. -/
def nxdomainZone : Option Zone :=
  env.ctx.zones.findBySuffixWithFilter env.lib req.qname nsecZone

def nxdomainRecords (z : Zone) : List DnsZoneRecord :=
  if z.nsecEnabled then buildNsecRecords env.lib z req.qname req.recordType
  else buildNsec3Records env.lib env.hashes z req.qname

def nxdomainDenial : Option Response := do
  let z ← req.nxdomainZone env
  if req.nxdomainRecords env z = [] then none
  else
    return req.buildNxdomainResponse env.lib req.now (req.nxdomainRecords env z) req.dnssecOk
      z.zskKey z.origin (apexSoa z)

def denial : Option Response :=
  if req.dnssecOk then (req.nodataDenial env).orElse fun _ => req.nxdomainDenial env else none

/-! ### The ordinary lookup -/

def ordinaryAnswer : Option Response :=
  match zone.lookupAuthoritative env.lib (req.lookupName env origin) req.qtype with
  | .noData _ _ _ soa => some (req.buildUnsignedNodata env.lib soa)
  | .nxDomain _ _ _ soa => some (req.buildUnsignedNxdomain env.lib soa)
  | _ => none

/-- What the handler returns once the zone is found and has an SOA record. -/
def zoneAnswer : Option Response :=
  (req.exactAnswer env origin zone).orElse fun _ =>
  (req.cnameAnswer env origin zone).orElse fun _ =>
  (req.anyAnswer env origin zone).orElse fun _ =>
  (req.meshAnswer env).orElse fun _ =>
  (req.dns64Answer env origin).orElse fun _ =>
  (req.denial env).orElse fun _ =>
  req.ordinaryAnswer env origin zone

/-- The response to a message that is neither NOTIFY nor UPDATE. -/
def answer : Option Response :=
  (req.acmeAnswer env).orElse fun _ =>
    match req.zoneFor env with
    | none => some req.buildRefused
    | some (origin, zone) =>
        if (zone.getSoa env.lib).isNone then some req.servfail
        else req.zoneAnswer env origin zone

/-! ### What each source can give -/

variable {env req origin zone} {r : Response}

theorem orElse_eq_some {a : Option Response} {b : Unit → Option Response} :
    a.orElse b = some r ↔ a = some r ∨ a = none ∧ b () = some r := by
  cases a <;> simp [Option.orElse]

theorem exactAnswer_eq_some :
    req.exactAnswer env origin zone = some r ↔
      ∃ records, zone.records.lookup (req.lookupName env origin, req.recordType) = some records ∧
        req.answerWith env records zone.zskKey origin = r := by
  unfold exactAnswer
  simp [Option.bind_eq_some_iff]

theorem cnameAnswer_eq_some :
    req.cnameAnswer env origin zone = some r ↔
      (req.recordType = .unknown ∨ req.recordType = .a) ∧
      ∃ cnames, zone.records.lookup (req.lookupName env origin, .cname) = some cnames ∧
        (if req.isCnameLoop cnames then req.buildRefused
          else req.answerWith env cnames zone.zskKey origin) = r := by
  unfold cnameAnswer
  split
  · next htype =>
    simp only [htype, true_and, Option.bind_eq_bind, Option.bind_eq_some_iff]
    refine exists_congr fun cnames => and_congr_right fun _ => ?_
    split <;> simp
  · next htype => simp [htype]

theorem anyAnswer_eq_some (h : req.anyAnswer env origin zone = some r) :
    req.qtype = 255 ∧ ∃ records key, req.answerWith env records key origin = r := by
  unfold anyAnswer at h
  split at h
  · next hany =>
    refine ⟨hany, ?_⟩
    simp only at h
    split at h
    · exact ⟨_, _, Option.some.inj h⟩
    · -- the query type is ANY here, so the branches for other types are not taken
      unfold madeUpAnswer at h
      have htype : req.recordType = .other 255 := by
        unfold recordType
        rw [hany]
        rfl
      simp [htype, hany] at h
  · cases h

theorem meshAnswer_eq_some (h : req.meshAnswer env = some r) :
    ∃ addresses key, req.answerWith env (meshRecords req.qtype addresses) key req.qname = r := by
  unfold meshAnswer at h
  simp only [Option.bind_eq_bind, Option.bind_eq_some_iff] at h
  obtain ⟨_, -, _, -, addresses, -, h⟩ := h
  split at h
  · cases h
  · exact ⟨addresses, _, Option.some.inj h⟩

theorem dns64Answer_eq_some (h : req.dns64Answer env origin = some r) :
    req.qtype = 28 ∧ ∃ records, req.answerWith env records none [] = r := by
  unfold dns64Answer at h
  split at h
  · next hqtype =>
    refine ⟨hqtype, ?_⟩
    simp only [Option.bind_eq_bind, Option.bind_eq_some_iff] at h
    obtain ⟨translator, -, h⟩ := h
    split at h
    · simp only [Option.bind_eq_some_iff] at h
      obtain ⟨_, -, _, -, h⟩ := h
      split at h
      · cases h
      · exact ⟨_, Option.some.inj h⟩
    · cases h
  · cases h

/-- A signed denial: NODATA or NXDOMAIN. -/
theorem denial_eq_some (h : req.denial env = some r) :
    req.dnssecOk = true ∧ ∃ rcode ∈ [(0 : UInt8), 3], ∃ nsecRecords zsk signerName soa,
      req.buildDenial env.lib req.now rcode nsecRecords req.dnssecOk zsk signerName soa = r := by
  unfold denial at h
  split at h
  · next hdo =>
    refine ⟨hdo, ?_⟩
    rcases orElse_eq_some.mp h with h | ⟨-, h⟩
    · unfold nodataDenial at h
      simp only [Option.bind_eq_bind, Option.bind_eq_some_iff] at h
      obtain ⟨z, -, h⟩ := h
      exact ⟨0, by simp, _, _, _, _, Option.some.inj h⟩
    · unfold nxdomainDenial at h
      simp only [Option.bind_eq_bind, Option.bind_eq_some_iff] at h
      obtain ⟨z, -, h⟩ := h
      split at h
      · cases h
      · exact ⟨3, by simp, _, _, _, _, Option.some.inj h⟩
  · cases h

theorem ordinaryAnswer_eq_some (h : req.ordinaryAnswer env origin zone = some r) :
    ∃ rcode ∈ [(0 : UInt8), 3], ∃ soa, req.buildUnsigned env.lib rcode soa = r := by
  unfold ordinaryAnswer at h
  split at h
  · exact ⟨0, by simp, _, Option.some.inj h⟩
  · exact ⟨3, by simp, _, Option.some.inj h⟩
  · cases h

/-- The sources in their order. -/
theorem zoneAnswer_eq_some :
    req.zoneAnswer env origin zone = some r ↔
      req.exactAnswer env origin zone = some r ∨ req.exactAnswer env origin zone = none ∧
      (req.cnameAnswer env origin zone = some r ∨ req.cnameAnswer env origin zone = none ∧
      (req.anyAnswer env origin zone = some r ∨ req.anyAnswer env origin zone = none ∧
      (req.meshAnswer env = some r ∨ req.meshAnswer env = none ∧
      (req.dns64Answer env origin = some r ∨ req.dns64Answer env origin = none ∧
      (req.denial env = some r ∨ req.denial env = none ∧
        req.ordinaryAnswer env origin zone = some r))))) := by
  simp only [zoneAnswer, orElse_eq_some]

theorem answer_eq_some (h : req.answer env = some r) :
    req.acmeAnswer env = some r ∨
    req.zoneFor env = none ∧ req.buildRefused = r ∨
    ∃ origin zone, req.zoneFor env = some (origin, zone) ∧
      (req.servfail = r ∨ req.zoneAnswer env origin zone = some r) := by
  rcases orElse_eq_some.mp h with hacme | ⟨-, h⟩
  · exact .inl hacme
  · right
    split at h
    · next hzone => exact .inl ⟨hzone, Option.some.inj h⟩
    · next origin zone hzone =>
      refine .inr ⟨origin, zone, hzone, ?_⟩
      split at h
      · exact .inl (Option.some.inj h)
      · exact .inr h

end Request

def handleParsedQuery (env : ServerEnv) (now : Nat) (parsed : ParsedDnsQuery) (query : Bytes)
    (clientIp : Option Framework.IpAddr) : Checked (Option Bytes) :=
  if parsed.isNotify then
    return do (← env.ctx.notifyHandler) query (← clientIp)
  else if parsed.isUpdate then
    match env.ctx.updateHandler, clientIp with
    | some handler, some ip => do
        let result ← handler query ip
        return result.toOption
    | _, _ => return none
  else do
    let edns ← parseEdnsOptions query
    return ((Request.ofParsed parsed edns clientIp now).answer env).map Response.bytes

/-! ### A small server -/

def exampleOrigin : Str := "example.com".toList

def exampleRecord (name : String) (recordType : RecordType) (value : String) : DnsZoneRecord where
  name := name.toList
  recordType := recordType
  value := value.toList
  ttl := 300
  priority := none

def exampleSoa : DnsZoneRecord :=
  exampleRecord "@" .soa "ns1.example.com admin.example.com 1 3600 600 604800 300"

/-- The zone `example.com` with an SOA record and the given RRsets. -/
def exampleZone (rrsets : List ((Str × RecordType) × List DnsZoneRecord)) : Zone :=
  { Zone.new exampleOrigin with records := Table.collect (((apex, .soa), [exampleSoa]) :: rrsets) }

/-- A server with one zone and nothing else configured. -/
def serve (zone : Zone) : ServerEnv where
  lib := asciiExternals
  hashes := { sha1 := id, sha256 := id }
  ctx := {
    zones := ZoneStore.new.insert asciiExternals exampleOrigin zone
    zoneTrie := ZoneTrie.new.insert asciiExternals exampleOrigin
    negativeCacheTtl := 60
    notifyHandler := none
    updateHandler := none
    dns64Translator := none
    acmeDnsChallenges := none
    meshRegistry := none }

def exampleRequest (qname : String) (qtype : UInt16) (edns : Option EdnsParams) : Request where
  id := 0x1234
  qname := qname.toList
  qtype := qtype
  rd := true
  edns := edns
  clientIp := none
  now := 1700000000

end Synvoid.Dns
