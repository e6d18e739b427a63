import Synvoid.Dns.CacheInvalidation
import Synvoid.Dns.QueryHandler
import Synvoid.Dns.QuestionName
import Synvoid.Framework.Transition

/-! # Cached answers

    Model of `handle_parsed_query_with_cache` (`synvoid-dns/src/server/query.rs`).
    It puts whole responses into the cache and returns them for every query with
    the same `CacheKey`. The key has neither the ID nor the RD bit of the query,
    so a response out of the cache can belong to another query.

    Zone transfers are parameters. Instants are in nanoseconds, as in the cache.
-/

namespace Synvoid.Dns

open Synvoid.Framework

/-! ### The lifetime of a response -/

inductive TtlParseError where
  | truncated
  | malformedLabel
  deriving DecidableEq, Repr

section ttl
variable (buf : Bytes)

/-- `skip_dns_name`; every byte is read behind a test of the length. -/
def skipDnsName : Nat → Nat → Except TtlParseError Nat
  | 0, _ => .error .truncated
  | fuel + 1, p =>
      if p ≥ buf.length then .error .truncated
      else
        let len := byteAt buf p
        if len = 0 then .ok (p + 1)
        else if len &&& 0xC0 = 0xC0 then
          if p + 2 > buf.length then .error .truncated else .ok (p + 2)
        else if len > 63 then .error .malformedLabel
        else skipDnsName fuel (p + 1 + len.toNat)

/-- The position behind the name at `pos`. -/
def nameEndAt (pos : Nat) : Except TtlParseError Nat := skipDnsName buf (buf.length + 1) pos

/-- The loop over the questions. -/
def skipQuestion : Nat → Nat → Except TtlParseError Nat
  | 0, pos => .ok pos
  | count + 1, pos => do
      let pos ← nameEndAt buf pos
      skipQuestion count (pos + 4)

def skipHeaderAndQuestion : Except TtlParseError Nat :=
  if buf.length < 12 then .error .truncated else skipQuestion buf (u16At buf 4).toNat 12

/-- The position behind the name of a record whose fixed fields are there. -/
def rrFields (pos : Nat) : Except TtlParseError Nat := do
  let nameEnd ← nameEndAt buf pos
  if nameEnd + 10 > buf.length then .error .truncated else .ok nameEnd

def rrRdlength (nameEnd : Nat) : Nat := (u16At buf (nameEnd + 8)).toNat

def skipRrSafe (pos : Nat) : Except TtlParseError Nat := do
  let nameEnd ← rrFields buf pos
  return nameEnd + 10 + rrRdlength buf nameEnd

/-- The loop of `first_answer_ttl`: the least TTL of the answers. -/
def minAnswerTtl : Nat → Nat → UInt32 → Except TtlParseError UInt32
  | 0, _, minTtl => .ok minTtl
  | count + 1, pos, minTtl => do
      let nameEnd ← rrFields buf pos
      let next ← skipRrSafe buf pos
      minAnswerTtl count next (min minTtl (u32At buf (nameEnd + 4)))

def firstAnswerTtl : Except TtlParseError (Option UInt32) := do
  let pos ← skipHeaderAndQuestion buf
  let ancount := (u16At buf 6).toNat
  if ancount = 0 then return none
  else do
    let minTtl ← minAnswerTtl buf ancount pos 0xFFFFFFFF
    return some minTtl

/-- The loop over the answers, which are skipped. -/
def skipAnswers : Nat → Nat → Except TtlParseError Nat
  | 0, pos => .ok pos
  | count + 1, pos => do
      let pos ← skipRrSafe buf pos
      skipAnswers count pos

/-- The loop over the authority section: the lesser of the TTL and the MINIMUM
    of the first SOA record. -/
def soaTtl : Nat → Nat → Except TtlParseError (Option UInt32)
  | 0, _ => .ok none
  | count + 1, pos => do
      let nameEnd ← rrFields buf pos
      let rdlength := rrRdlength buf nameEnd
      if u16At buf nameEnd = 6 ∧ rdlength ≥ 20 then
        let minimumPos := nameEnd + 10 + rdlength - 4
        if minimumPos + 4 > buf.length then .error .truncated
        else return some (min (u32At buf (nameEnd + 4)) (u32At buf minimumPos))
      else soaTtl count (nameEnd + 10 + rdlength)

def negativeSoaTtl : Except TtlParseError (Option UInt32) := do
  let pos ← skipHeaderAndQuestion buf
  let answerEnd ← skipAnswers buf (u16At buf 6).toNat pos
  soaTtl buf (u16At buf 8).toNat answerEnd

def extractTtlFromResponse (negativeCacheTtl : UInt32) : UInt32 :=
  if buf.length < 12 then 0
  else
    let rcode := u16At buf 2 &&& 0x000F
    let ancount := u16At buf 6
    let nscount := u16At buf 8
    if rcode = 2 ∨ rcode = 5 then 0
    else if ancount > 0 then
      match firstAnswerTtl buf with
      | .ok (some ttl) => ttl
      | _ => 0
    else
      let soaMinTtl := if rcode = 3 ∨ nscount > 0 then negativeSoaTtl buf else .ok none
      match soaMinTtl with
      | .ok (some ttl) => min ttl negativeCacheTtl
      | _ => if rcode = 3 then negativeCacheTtl else 0

end ttl

/-! ### The handler -/

def ParsedDnsQuery.isAxfr (parsed : ParsedDnsQuery) : Bool := parsed.qtype == 252

def ParsedDnsQuery.isIxfr (parsed : ParsedDnsQuery) : Bool := parsed.qtype == 251

/-- A query that the cache is asked for. -/
def ParsedDnsQuery.isOrdinary (parsed : ParsedDnsQuery) : Bool :=
  !parsed.isNotify && !parsed.isUpdate && !parsed.isAxfr && !parsed.isIxfr

/-- The cache and what handles messages that are not ordinary queries. -/
structure CachedServer extends ServerEnv where
  config : CacheConfig
  computeFingerprint : Bytes → UInt64
  /-- NOTIFY, UPDATE and zone transfers. -/
  otherMessage : ParsedDnsQuery → Bytes → Option Framework.IpAddr → TransportClass →
    Checked (Option Bytes)

def unspecified : Framework.IpAddr := .v4 ⟨[0, 0, 0, 0], rfl⟩

/-- The moment at which a query is handled. -/
structure Moment where
  /-- The monotonic clock of the cache. -/
  instant : Nat
  /-- The second of the wall clock, for signatures. -/
  second : Nat

/-- `handle_parsed_query_with_cache`, with the cache after it. -/
def handleParsedQueryWithCache (server : CachedServer) (cache : DnsCache) (moment : Moment)
    (parsed : ParsedDnsQuery) (query : Bytes) (transportClass : TransportClass)
    (clientIp : Option Framework.IpAddr) : Checked (Option Bytes × DnsCache) :=
  if parsed.isOrdinary then
    let cacheKey :=
      CacheKey.fromParsedAuthoritative parsed (clientIp.getD unspecified) transportClass
    match cache.get server.config moment.instant cacheKey with
    | (some cached, cache) => return (some cached, cache)
    | (none, cache) => do
        let result ← handleParsedQuery server.toServerEnv moment.second parsed query clientIp
        match result with
        | none => return (none, cache)
        | some data =>
            let ttl := extractTtlFromResponse data server.ctx.negativeCacheTtl
            if ttl > 0 then
              return (some data,
                cache.insert server.config server.computeFingerprint moment.instant
                  cacheKey data ttl)
            else return (some data, cache)
  else do
    let response ← server.otherMessage parsed query clientIp transportClass
    return (response, cache)

/-! ### Runs -/

/-- An ordinary query as it comes in. -/
structure Inbound where
  query : Bytes
  parsed : ParsedDnsQuery
  transportClass : TransportClass
  clientIp : Option Framework.IpAddr
  moment : Moment
  parses : ParsedDnsQuery.parse query = .ok (.ok parsed)
  ordinary : parsed.isOrdinary = true

namespace Inbound

variable (inbound : Inbound)

def key : CacheKey :=
  CacheKey.fromParsedAuthoritative inbound.parsed (inbound.clientIp.getD unspecified)
    inbound.transportClass

/-- What the handler reads of the OPT record. -/
def edns : Checked (Option EdnsParams) :=
  (parseEdnsOptions inbound.query).map (Option.map EdnsOptions.params)

/-- The request that the handler answers, at the given second. -/
def request (edns : Option EdnsParams) (second : Nat) : Request where
  id := inbound.parsed.id
  qname := inbound.parsed.qname
  qtype := inbound.parsed.qtype
  rd := inbound.parsed.flags.recursionDesired
  edns := edns
  clientIp := inbound.clientIp
  now := second

/-- What `handle_parsed_query` computes for the query, at the given second. -/
def computed (env : ServerEnv) (second : Nat) : Checked (Option Bytes) :=
  handleParsedQuery env second inbound.parsed inbound.query inbound.clientIp

end Inbound

/-- A query and its response. -/
structure Exchange where
  inbound : Inbound
  response : Option Bytes

/-- The server, starting with an empty cache. A query on which the handler
    panics leaves the cache as it is and is not a step. -/
def CachedServer.system (server : CachedServer) : System DnsCache Exchange where
  init cache := cache = .new
  step cache exchange cache' :=
    let inbound := exchange.inbound
    handleParsedQueryWithCache server cache inbound.moment inbound.parsed inbound.query
      inbound.transportClass inbound.clientIp = .ok (exchange.response, cache')

/-! ### What an answer should be -/

/-- The response has the ID, the RD bit and the question of the query. -/
structure BelongsTo (inbound : Inbound) (response : Bytes) : Prop where
  id : u16At response 0 = u16At inbound.query 0
  recursionDesired : (QueryFlags.fromU16 (u16At response 2)).recursionDesired =
    (QueryFlags.fromU16 (u16At inbound.query 2)).recursionDesired
  count : u16At response 4 = u16At inbound.query 4
  question : slice response 12 inbound.parsed.questionEnd =
    slice inbound.query 12 inbound.parsed.questionEnd

/-- One question of class IN, without dots inside of labels. -/
structure PlainQuestion (inbound : Inbound) : Prop where
  one : inbound.parsed.qdcount = 1
  internet : inbound.parsed.qclass = 1
  noDots : ∀ ls : List Bytes, (∀ l ∈ ls, 1 ≤ l.length ∧ l.length ≤ 63) →
    slice inbound.query 12 inbound.parsed.qnameEnd = wireName ls → ∀ l ∈ ls, 0x2E ∉ l

/-- The query is refused because of a CNAME that points to itself. -/
def Request.RefusedLoop (env : ServerEnv) (req : Request) (origin : Str) (zone : Zone) : Prop :=
  zone.records.lookup (req.lookupName env origin, req.recordType) = none ∧
    (req.recordType = .unknown ∨ req.recordType = .a) ∧
    ∃ cnames, zone.records.lookup (req.lookupName env origin, .cname) = some cnames ∧
      req.isCnameLoop cnames = true

/-- The RD bit is clear, or the answer is neither a refusal nor that to an ACME
    challenge. -/
def Request.KeepsRd (env : ServerEnv) (req : Request) : Prop :=
  req.rd = true → req.acmeAnswer env = none ∧
    ∃ origin zone, req.zoneFor env = some (origin, zone) ∧ ¬ req.RefusedLoop env origin zone

/-- The condition on one query. -/
structure Answerable (env : ServerEnv) (inbound : Inbound) : Prop where
  question : PlainQuestion inbound
  rd : ∀ edns, inbound.edns = .ok edns →
    (inbound.request edns inbound.moment.second).KeepsRd env

/-- Two queries agree in what is not in the cache key. -/
structure SameData (a b : Inbound) : Prop where
  id : a.parsed.id = b.parsed.id
  rd : a.parsed.flags.recursionDesired = b.parsed.flags.recursionDesired
  edns : a.edns = b.edns
  clientIp : a.clientIp = b.clientIp

/-! ### The question of a query -/

theorem labels_foldl_joinLabel {ss : List Str} (hss : ∀ s ∈ ss, s ≠ [] ∧ '.' ∉ s) (name : Str) :
    labels (ss.foldl joinLabel name) = labels name ++ ss := by
  induction ss generalizing name with
  | nil => simp
  | cons s ss ih =>
    obtain ⟨⟨hne, hdot⟩, hss⟩ := List.forall_mem_cons.mp hss
    have hjoin : labels (joinLabel name s) = labels name ++ [s] := by
      have hlabel : labels s = [s] := by rw [labels_of_no_dot hdot, if_neg hne]
      unfold joinLabel
      split
      · next hempty => rw [hempty, labels_nil, List.nil_append, hlabel, List.nil_append]
      · rw [List.append_assoc, List.singleton_append, labels_append_dot, hlabel]
    rw [List.foldl_cons, ih hss, hjoin, List.append_assoc]
    rfl

/-- A response writes the question of a plain query as it was read. -/
theorem buildQuestion_eq {inbound : Inbound} (hplain : PlainQuestion inbound) :
    buildQuestion inbound.parsed.qname inbound.parsed.qtype 1 =
      slice inbound.query 12 inbound.parsed.questionEnd := by
  have hread := readFrom_of_parse inbound.parses
  obtain ⟨ss, hslice, hle, hname, hss⟩ := parseQname_eq_ok hread.qname
  have hwire : slice inbound.query 12 inbound.parsed.qnameEnd = wireName (ss.map utf8) := by
    rw [hslice, wireName, List.flatMap_map]
    rfl
  have hnoDots := hplain.noDots (ss.map utf8) (by simpa using hss) hwire
  have hlabels : labels inbound.parsed.qname = ss := by
    rw [hname, labels_foldl_joinLabel, labels_nil, List.nil_append]
    intro s hs
    constructor
    · rintro rfl
      exact absurd (hss [] hs).1 (by simp)
    · intro hdot
      exact hnoDots (utf8 s) (List.mem_map_of_mem hs) (List.mem_flatMap.mpr ⟨'.', hdot, by decide⟩)
  have hkeep : ss.filter (fun label => byteLen label ≤ 63) = ss :=
    List.filter_eq_self.mpr fun s hs => by simpa using (hss s hs).2
  have hlength := hread.length
  rw [buildQuestion, hlabels, hkeep, ← hslice, hread.questionEnd,
    ← slice_append_slice inbound.query (Nat.le_trans hle (Nat.le_add_right _ 2))
      (Nat.le_succ_of_le (Nat.le_succ _)),
    ← slice_append_slice inbound.query hle (Nat.le_add_right _ 2), slice_u16 (by omega),
    slice_u16 (by omega), ← hread.qtype, ← hread.qclass, hplain.internet]

/-! ### The bytes of a response -/

/-- The header and the question at the front of a response. -/
theorem bytes_eq (r : Response) :
    ∃ counts rest : Bytes, counts.length = 6 ∧
      r.bytes = u16ToBe r.id ++ (u16ToBe r.flags ++
        (u16ToBe 1 ++ (counts ++ (buildQuestion r.qname r.qtype 1 ++ rest)))) := by
  refine ⟨u16ToBe (UInt16.ofNat r.envelope.answerRecords.length) ++
    (u16ToBe (UInt16.ofNat r.envelope.authorityRecords.length) ++
      u16ToBe (UInt16.ofNat r.envelope.additionalRecords.length)),
    r.envelope.answerRecords.flatMap EncodedRecord.bytes ++
      (r.envelope.authorityRecords.flatMap EncodedRecord.bytes ++
        r.envelope.additionalRecords.flatMap EncodedRecord.bytes), rfl, ?_⟩
  unfold Response.bytes assemblePacket
  simp only [List.append_assoc]

theorem header_bytes (r : Response) :
    u16At r.bytes 0 = r.id ∧ u16At r.bytes 2 = r.flags ∧ u16At r.bytes 4 = 1 := by
  obtain ⟨counts, rest, -, hbytes⟩ := bytes_eq r
  rw [hbytes]
  refine ⟨u16At_u16ToBe_append _ _, ?_, ?_⟩
  · exact (u16At_append_right (u16ToBe r.id) _ 0).trans (u16At_u16ToBe_append _ _)
  · exact (u16At_append_right (u16ToBe r.id) _ 2).trans
      ((u16At_append_right (u16ToBe r.flags) _ 0).trans (u16At_u16ToBe_append _ _))

theorem slice_question (r : Response) :
    slice r.bytes 12 (12 + (buildQuestion r.qname r.qtype 1).length) =
      buildQuestion r.qname r.qtype 1 := by
  obtain ⟨counts, rest, hlength, hbytes⟩ := bytes_eq r
  have hdrop : r.bytes.drop 12 = buildQuestion r.qname r.qtype 1 ++ rest := by
    rw [hbytes, ← List.append_assoc, ← List.append_assoc, ← List.append_assoc]
    exact List.drop_left' (by simp [hlength])
  unfold slice
  rw [hdrop, Nat.add_sub_cancel_left, List.take_left]

namespace Request

variable {env : ServerEnv} {req : Request} {origin : Str} {zone : Zone} {r : Response}

theorem acmeAnswer_eq_some (h : req.acmeAnswer env = some r) :
    req.qtype = 16 ∧ ∃ txtValue, req.buildAcmeTxtResponse env.lib txtValue = r := by
  unfold acmeAnswer at h
  split at h
  · cases h
  · next htype =>
    simp only [Option.bind_eq_bind, Option.bind_eq_some_iff] at h
    obtain ⟨_, -, _, -, txtValue, -, h⟩ := h
    exact ⟨Decidable.not_not.mp htype, txtValue, Option.some.inj h⟩

/-- What a response of a zone is made by: a builder that repeats the ID, the
    question and the RD bit, or a refusal. -/
structure Faithful (req : Request) (r : Response) : Prop where
  question : req.Repeats r
  rd : r.recursionDesired = req.rd

theorem faithful_answerWith (records : List DnsZoneRecord) (key : Option ZoneSigningKey)
    (signerName : Str) : req.Faithful (req.answerWith env records key signerName) :=
  ⟨QuestionContext.repeats_buildResponse, QuestionContext.recursionDesired_buildResponse⟩

theorem mem_rcodes {rcode : UInt8} (h : rcode ∈ [(0 : UInt8), 3]) :
    rcode ∈ QuestionContext.rcodes := by
  simp only [List.mem_cons, List.not_mem_nil, or_false] at h
  rcases h with rfl | rfl <;> decide

/-- A zone's answer repeats the query or is the refusal of a CNAME loop. -/
theorem faithful_zoneAnswer (h : req.zoneAnswer env origin zone = some r) :
    req.Faithful r ∨ req.RefusedLoop env origin zone ∧ r = req.buildRefused := by
  rcases zoneAnswer_eq_some.mp h with hexact | ⟨hexact, h⟩
  · obtain ⟨records, -, rfl⟩ := exactAnswer_eq_some.mp hexact
    exact .inl (faithful_answerWith _ _ _)
  rcases h with hcname | ⟨-, hany | ⟨-, hmesh | ⟨-, hdns64 | ⟨-, hdenial | ⟨-, hordinary⟩⟩⟩⟩⟩
  · obtain ⟨htype, cnames, hcnames, rfl⟩ := cnameAnswer_eq_some.mp hcname
    split
    · next hloop =>
      have hnone : zone.records.lookup (req.lookupName env origin, req.recordType) = none := by
        by_contra hsome
        obtain ⟨records, hrecords⟩ := Option.ne_none_iff_exists'.mp hsome
        have hanswer := exactAnswer_eq_some.mpr ⟨records, hrecords, rfl⟩
        rw [hexact] at hanswer
        cases hanswer
      exact .inr ⟨⟨hnone, htype, cnames, hcnames, hloop⟩, rfl⟩
    · exact .inl (faithful_answerWith _ _ _)
  · obtain ⟨-, records, key, rfl⟩ := anyAnswer_eq_some hany
    exact .inl (faithful_answerWith _ _ _)
  · obtain ⟨addresses, key, rfl⟩ := meshAnswer_eq_some hmesh
    exact .inl (faithful_answerWith _ _ _)
  · obtain ⟨-, records, rfl⟩ := dns64Answer_eq_some hdns64
    exact .inl (faithful_answerWith _ _ _)
  · obtain ⟨-, rcode, hrcode, _, _, _, _, rfl⟩ := denial_eq_some hdenial
    exact .inl ⟨QuestionContext.repeats_buildDenial rcode,
      QuestionContext.recursionDesired_buildDenial (mem_rcodes hrcode)⟩
  · obtain ⟨rcode, hrcode, soa, rfl⟩ := ordinaryAnswer_eq_some hordinary
    exact .inl ⟨QuestionContext.repeats_buildUnsigned rcode,
      QuestionContext.recursionDesired_buildUnsigned (mem_rcodes hrcode)⟩

theorem faithful_buildRefused (hrd : req.rd = false) : req.Faithful req.buildRefused :=
  ⟨QuestionContext.repeats_respond _ _ _ _,
    (QuestionContext.recursionDesired_respond (q := { req.toQuestionContext with rd := false })
      (by decide) _ _ _).trans hrd.symm⟩

theorem faithful_acme (htype : req.qtype = 16) (hrd : req.rd = false) (txtValue : Str) :
    req.Faithful (req.buildAcmeTxtResponse env.lib txtValue) := by
  obtain ⟨⟨id, qname, qtype, rd, edns⟩, clientIp, now⟩ := req
  obtain rfl : qtype = 16 := htype
  obtain rfl : rd = false := hrd
  exact ⟨QuestionContext.repeats_fitToTransport (QuestionContext.repeats_respond _ _ _ _),
    QuestionContext.recursionDesired_fitToTransport
      (QuestionContext.recursionDesired_respond (by decide) _ _ _)⟩

theorem faithful_answer (hrd : req.KeepsRd env) (h : req.answer env = some r) :
    req.Faithful r := by
  rcases answer_eq_some h with hacme | ⟨hzone, rfl⟩ | ⟨origin, zone, hzone, h⟩
  · obtain ⟨htype, txtValue, rfl⟩ := acmeAnswer_eq_some hacme
    refine faithful_acme htype (Bool.eq_false_iff.mpr fun hset => ?_) txtValue
    rw [(hrd hset).1] at hacme
    cases hacme
  · refine faithful_buildRefused (Bool.eq_false_iff.mpr fun hset => ?_)
    obtain ⟨-, origin, zone, hfor, -⟩ := hrd hset
    rw [hzone] at hfor
    cases hfor
  · rcases h with rfl | h
    · exact ⟨QuestionContext.repeats_respond _ _ _ _,
        QuestionContext.recursionDesired_respond (by decide) _ _ _⟩
    · rcases faithful_zoneAnswer h with hfaithful | ⟨hloop, rfl⟩
      · exact hfaithful
      · refine faithful_buildRefused (Bool.eq_false_iff.mpr fun hset => ?_)
        obtain ⟨-, origin', zone', hfor, hnot⟩ := hrd hset
        rw [hzone] at hfor
        cases hfor
        exact hnot hloop

end Request

/-! ### Computed answers -/

namespace Inbound

variable {inbound inbound' : Inbound} {env : ServerEnv} {second second' : Nat} {response : Bytes}

/-- The handler answers the request of an ordinary query. -/
theorem computed_eq :
    inbound.computed env second =
      inbound.edns.map fun edns =>
        ((inbound.request edns second).answer env).map Response.bytes := by
  have hordinary := inbound.ordinary
  unfold ParsedDnsQuery.isOrdinary at hordinary
  simp only [Bool.and_eq_true, Bool.not_eq_true'] at hordinary
  unfold computed handleParsedQuery edns
  rw [hordinary.1.1.1, hordinary.1.1.2]
  cases parseEdnsOptions inbound.query <;> rfl

theorem computed_eq_some (h : inbound.computed env second = .ok (some response)) :
    ∃ edns r, inbound.edns = .ok edns ∧ (inbound.request edns second).answer env = some r ∧
      r.bytes = response := by
  rw [computed_eq] at h
  cases hedns : inbound.edns with
  | error e =>
    rw [hedns] at h
    cases h
  | ok edns =>
    rw [hedns] at h
    obtain ⟨r, hr, hbytes⟩ := Option.map_eq_some_iff.mp (Except.ok.inj h)
    exact ⟨edns, r, rfl, hr, hbytes⟩

/-- The answer to an answerable query belongs to it, whenever it is computed. -/
theorem belongsTo_of_computed (hquery : Answerable env inbound)
    (h : inbound.computed env second = .ok (some response)) : BelongsTo inbound response := by
  obtain ⟨edns, r, hedns, hr, rfl⟩ := computed_eq_some h
  have hrd : (inbound.request edns second).KeepsRd env := hquery.rd edns hedns
  obtain ⟨⟨hid, hqname, hqtype⟩, hrdBit⟩ := Request.faithful_answer hrd hr
  have hread := readFrom_of_parse inbound.parses
  obtain ⟨hid', hflags', hcount'⟩ := header_bytes r
  have hquestion := buildQuestion_eq hquery.question
  have hlength : 12 + (buildQuestion inbound.parsed.qname inbound.parsed.qtype 1).length =
      inbound.parsed.questionEnd := by
    obtain ⟨ss, -, hle, -, -⟩ := parseQname_eq_ok hread.qname
    have hend := hread.length
    rw [hquestion, hread.questionEnd, length_slice _ _ _ hend]
    omega
  constructor
  · rw [hid', hid]
    exact hread.id
  · rw [hflags', ← hread.flags]
    exact hrdBit
  · rw [hcount', ← hread.qdcount, hquery.question.one]
  · have hslice := slice_question r
    rw [hqname, hqtype] at hslice
    rw [← hquestion, ← hlength]
    exact hslice

/-- Queries with the same key and the same data get the same answer. -/
theorem computed_congr (hkey : inbound.key = inbound'.key) (hdata : SameData inbound inbound') :
    inbound.computed env second = inbound'.computed env second := by
  have hqname : inbound.parsed.qname = inbound'.parsed.qname := congrArg CacheKey.qname hkey
  have hqtype : inbound.parsed.qtype = inbound'.parsed.qtype := congrArg CacheKey.qtype hkey
  have hrequest : inbound.request = inbound'.request := by
    unfold request
    rw [hdata.id, hqname, hqtype, hdata.rd, hdata.clientIp]
  rw [computed_eq, computed_eq, hdata.edns, hrequest]

end Inbound

/-! ### Without signatures the time does not matter -/

namespace Request

variable {req : Request}

theorem answerWith_now (env : ServerEnv) (hdo : req.dnssecOk = false) (second : Nat)
    (records : List DnsZoneRecord)
    (key : Option ZoneSigningKey) (signerName : Str) :
    answerWith env { req with now := second } records key signerName =
      req.answerWith env records key signerName := by
  have hsigs : ∀ now, req.rrsigs env.lib now records false key signerName = [] := by
    intro now
    unfold QuestionContext.rrsigs
    cases key <;> rfl
  have hdo' : dnssecOk { req with now := second } = false := hdo
  unfold answerWith QuestionContext.buildResponse
  rw [hdo, hdo', hsigs, hsigs]

theorem answer_now (env : ServerEnv) (hdo : req.dnssecOk = false) (second : Nat) :
    answer env { req with now := second } = req.answer env := by
  have hwith := answerWith_now env hdo second
  have hexact : ∀ origin zone, exactAnswer env { req with now := second } origin zone =
      req.exactAnswer env origin zone := by
    intro origin zone
    unfold exactAnswer
    simp only [hwith]
    rfl
  have hcname : ∀ origin zone, cnameAnswer env { req with now := second } origin zone =
      req.cnameAnswer env origin zone := by
    intro origin zone
    unfold cnameAnswer
    simp only [hwith]
    rfl
  have hany : ∀ origin zone, anyAnswer env { req with now := second } origin zone =
      req.anyAnswer env origin zone := by
    intro origin zone
    unfold anyAnswer madeUpAnswer
    simp only [hwith]
    rfl
  have hmesh : meshAnswer env { req with now := second } = req.meshAnswer env := by
    unfold meshAnswer
    simp only [hwith]
  have hdns64 : ∀ origin, dns64Answer env { req with now := second } origin =
      req.dns64Answer env origin := by
    intro origin
    unfold dns64Answer
    simp only [hwith]
    rfl
  have hdenial : denial env { req with now := second } = req.denial env := by
    have hdo' : dnssecOk { req with now := second } = false := hdo
    simp only [denial, hdo, hdo', Bool.false_eq_true, if_false]
  unfold answer zoneAnswer
  simp only [hexact, hcname, hany, hmesh, hdns64, hdenial]
  rfl

end Request

/-! ### Runs without shared keys -/

/-- What one query does: the response and every new entry of the cache are
    entries there were, or what the handler computes. -/
theorem step_cases {server : CachedServer} {cache cache' : DnsCache} {exchange : Exchange}
    (h : server.system.step cache exchange cache') :
    ((∃ cached, cache.entries.get exchange.inbound.key = some cached ∧
        exchange.response = some cached.data) ∨
      exchange.inbound.computed server.toServerEnv exchange.inbound.moment.second =
        .ok exchange.response) ∧
    ∀ key cached, cache'.entries.get key = some cached →
      cache.entries.get key = some cached ∨
      key = exchange.inbound.key ∧
        exchange.inbound.computed server.toServerEnv exchange.inbound.moment.second =
          .ok (some cached.data) := by
  obtain ⟨inbound, response⟩ := exchange
  have hget : ∀ key cached, (cache.get server.config inbound.moment.instant
      inbound.key).2.entries.get key = some cached → cache.entries.get key = some cached :=
    fun key cached => DnsCache.entries_getWithMetadata
  change handleParsedQueryWithCache server cache inbound.moment inbound.parsed inbound.query
    inbound.transportClass inbound.clientIp = .ok (response, cache') at h
  unfold handleParsedQueryWithCache at h
  rw [if_pos inbound.ordinary] at h
  simp only at h
  split at h
  · next data cacheAfter hhit =>
    cases h
    refine ⟨.inl ?_, fun key cached hentry => .inl (hget key cached ?_)⟩
    · obtain ⟨cached, hcached, hdata⟩ :=
        DnsCache.entry_of_returns (.inl (congrArg Prod.fst hhit))
      exact ⟨cached, hcached, by rw [hdata]⟩
    · exact (congrArg Prod.snd hhit) ▸ hentry
  · next cacheAfter hmiss =>
    have hold : ∀ key cached, cacheAfter.entries.get key = some cached →
        cache.entries.get key = some cached :=
      fun key cached hentry => hget key cached ((congrArg Prod.snd hmiss) ▸ hentry)
    obtain ⟨result, hresult, h⟩ := bind_eq_ok h
    split at h
    · cases h
      exact ⟨.inr hresult, fun key cached hentry => .inl (hold key cached hentry)⟩
    · next data =>
      split at h
      · cases h
        refine ⟨.inr hresult, fun key cached hentry => ?_⟩
        rcases DnsCache.entries_insert hentry with hfirst | ⟨-, hkey, hdata⟩
        · exact .inl (hold key cached hfirst)
        · exact .inr ⟨hkey.symm, by rw [hdata]; exact hresult⟩
      · cases h
        exact ⟨.inr hresult, fun key cached hentry => .inl (hold key cached hentry)⟩

/-- Every entry was computed for an earlier query with its key. -/
def EntriesComputed (env : ServerEnv) (tr : List (DnsCache × Exchange)) (cache : DnsCache) : Prop :=
  ∀ key cached, cache.entries.get key = some cached →
    ∃ step ∈ tr, step.2.inbound.key = key ∧
      step.2.inbound.computed env step.2.inbound.moment.second = .ok (some cached.data)

/-- Every response was computed for a query of the run with the same key, at the
    time of that query. -/
def ResponsesComputed (env : ServerEnv) (tr : List (DnsCache × Exchange)) : Prop :=
  ∀ step ∈ tr, ∀ response, step.2.response = some response →
    ∃ earlier ∈ tr, earlier.2.inbound.key = step.2.inbound.key ∧
      earlier.2.inbound.computed env earlier.2.inbound.moment.second = .ok (some response)

theorem run_computed {server : CachedServer} {tr : List (DnsCache × Exchange)} {cache : DnsCache}
    (h : server.system.Exec tr cache) :
    ResponsesComputed server.toServerEnv tr ∧ EntriesComputed server.toServerEnv tr cache := by
  refine System.Exec.history (fun tr cache => ResponsesComputed server.toServerEnv tr ∧
    EntriesComputed server.toServerEnv tr cache) ?_ ?_ h
  · rintro cache rfl
    exact ⟨by simp [ResponsesComputed], by simp [EntriesComputed, DnsCache.new]⟩
  · rintro tr cache exchange cache' ⟨hresponses, hentries⟩ hstep
    obtain ⟨hresponse, hnew⟩ := step_cases hstep
    constructor
    · unfold ResponsesComputed
      rw [forall_mem_snoc]
      constructor
      · intro step hstep response hsome
        obtain ⟨earlier, hearlier, hrest⟩ := hresponses step hstep response hsome
        exact ⟨earlier, List.mem_append_left _ hearlier, hrest⟩
      · intro response hsome
        rcases hresponse with ⟨cached, hcached, hdata⟩ | hcomputed
        · obtain ⟨earlier, hearlier, hkey, hcomputed⟩ := hentries _ _ hcached
          rw [hsome] at hdata
          cases hdata
          exact ⟨earlier, List.mem_append_left _ hearlier, hkey, hcomputed⟩
        · rw [hsome] at hcomputed
          exact ⟨(cache, exchange), by simp, rfl, hcomputed⟩
    · intro key cached hcached
      rcases hnew key cached hcached with hold | ⟨rfl, hcomputed⟩
      · obtain ⟨earlier, hearlier, hrest⟩ := hentries _ _ hold
        exact ⟨earlier, List.mem_append_left _ hearlier, hrest⟩
      · exact ⟨(cache, exchange), by simp, rfl, hcomputed⟩

/-- The query does not ask for signatures. -/
def Unsigned (inbound : Inbound) : Prop :=
  ∀ edns, inbound.edns = .ok (some edns) → edns.dnssecOk = false

theorem Inbound.computed_unsigned {inbound : Inbound} {env : ServerEnv} (h : Unsigned inbound)
    (second second' : Nat) : inbound.computed env second = inbound.computed env second' := by
  rw [computed_eq, computed_eq]
  cases hedns : inbound.edns with
  | error e => simp only [Except.map]
  | ok edns =>
    have hdo : (inbound.request edns second').dnssecOk = false := by
      cases edns with
      | none => rfl
      | some params => exact h params hedns
    have hanswer := Request.answer_now env hdo second
    exact congrArg (fun answer => Except.ok (answer.map Response.bytes)) hanswer

/-- **Answers belong to their queries**, in every run of answerable queries in
    which those with the same key agree in their data: each response has the ID,
    the RD bit and the question of its query, and is what the handler computes
    for it, at once or, with signatures, at the time of an earlier query. -/
theorem answers_belong_to_queries (server : CachedServer) (tr : List (DnsCache × Exchange))
    (cache : DnsCache) (hrun : server.system.Exec tr cache)
    (hqueries : ∀ step ∈ tr, Answerable server.toServerEnv step.2.inbound)
    (hkeys : ∀ step ∈ tr, ∀ step' ∈ tr, step.2.inbound.key = step'.2.inbound.key →
      SameData step.2.inbound step'.2.inbound) :
    ∀ step ∈ tr, ∀ response, step.2.response = some response →
      BelongsTo step.2.inbound response ∧
      (∃ earlier ∈ tr, step.2.inbound.computed server.toServerEnv
        earlier.2.inbound.moment.second = .ok (some response)) ∧
      (Unsigned step.2.inbound → step.2.inbound.computed server.toServerEnv
        step.2.inbound.moment.second = .ok (some response)) := by
  intro step hstep response hresponse
  obtain ⟨earlier, hearlier, hkey, hcomputed⟩ := (run_computed hrun).1 step hstep response hresponse
  have hdata := hkeys earlier hearlier step hstep hkey
  rw [Inbound.computed_congr hkey hdata] at hcomputed
  refine ⟨Inbound.belongsTo_of_computed (hqueries step hstep) hcomputed,
    ⟨earlier, hearlier, hcomputed⟩, fun hunsigned => ?_⟩
  rw [Inbound.computed_unsigned hunsigned _ earlier.2.inbound.moment.second]
  exact hcomputed

/-! ### Two queries for one address -/

def hostZone : Zone :=
  exampleZone [(("host".toList, .a), [exampleRecord "host" .a "192.0.2.8"])]

def hostServer : CachedServer where
  toServerEnv := serve hostZone
  config := .new 1000 3600 60
  computeFingerprint := fun data => UInt64.ofNat data.length
  otherMessage := fun _ _ _ _ => return none

/-- The IDs of two queries for the address of `host.example.com`. -/
def hostId (second : Bool) : UInt8 := if second then 0x35 else 0x34

def hostQuery (second : Bool) : Bytes :=
  [0x12, hostId second, 1, 0, 0, 1, 0, 0, 0, 0, 0, 0] ++
    encodeLabels ["host".toList, "example".toList, "com".toList] ++ [0, 0, 1, 0, 1]

def hostParsed (second : Bool) : ParsedDnsQuery where
  id := u16FromBe 0x12 (hostId second)
  flags := QueryFlags.fromU16 0x0100
  qdcount := 1
  qname := "host.example.com".toList
  qnameEnd := 30
  qtype := 1
  qclass := 1
  questionEnd := 34
  hasEdns := false
  dnssecOk := false
  raw := hostQuery second

theorem parse_hostQuery :
    ∀ second, ParsedDnsQuery.parse (hostQuery second) = .ok (.ok (hostParsed second)) := by
  decide +kernel

def hostInbound (second : Bool) : Inbound where
  query := hostQuery second
  parsed := hostParsed second
  transportClass := .udp512
  clientIp := none
  moment := { instant := 0, second := 1700000000 }
  parses := parse_hostQuery second
  ordinary := rfl

theorem answerable_hostInbound (second : Bool) :
    Answerable hostServer.toServerEnv (hostInbound second) := by
  refine ⟨⟨rfl, rfl, ?_⟩, ?_⟩
  · -- there is no such byte in the whole name
    intro ls _ hslice l hl hdot
    have hname : ∀ second, 0x2E ∉ slice (hostQuery second) 12 30 := by decide
    have hmem : 0x2E ∈ wireName ls :=
      List.mem_append_left _ (List.mem_flatMap.mpr ⟨l, hl, List.mem_cons_of_mem _ hdot⟩)
    rw [← hslice] at hmem
    exact hname second hmem
  · intro edns _ _
    refine ⟨rfl, exampleOrigin, hostZone, rfl, fun hloop => ?_⟩
    have hsome : (hostZone.records.lookup ("host".toList, .a)).isSome = true := by decide
    have hnone : hostZone.records.lookup ("host".toList, .a) = none := hloop.1
    rw [hnone] at hsome
    cases hsome

/-- The response to a query and the cache after it. -/
def respond (server : CachedServer) (cache : DnsCache) (inbound : Inbound) :
    Option Bytes × DnsCache :=
  match handleParsedQueryWithCache server cache inbound.moment inbound.parsed inbound.query
    inbound.transportClass inbound.clientIp with
  | .ok result => result
  | .error _ => (none, cache)

theorem step_respond {server : CachedServer} {cache : DnsCache} {inbound : Inbound}
    (h : (respond server cache inbound).1.isSome = true) :
    server.system.step cache ⟨inbound, (respond server cache inbound).1⟩
      (respond server cache inbound).2 := by
  show handleParsedQueryWithCache _ _ _ _ _ _ _ = _
  unfold respond at h ⊢
  split at h
  · next result hresult => rw [hresult]
  · cases h

/-- The run of a query and a second one. -/
def hostRun (second : Bool) : List (DnsCache × Exchange) :=
  let first := respond hostServer .new (hostInbound false)
  [(.new, ⟨hostInbound false, first.1⟩),
    (first.2, ⟨hostInbound second, (respond hostServer first.2 (hostInbound second)).1⟩)]

/-- Both are answered with the ID of the first. -/
theorem hostRun_responses : ∀ second, ((hostRun second).map fun step =>
    step.2.response.map fun response => u16At response 0) = [some 0x1234, some 0x1234] := by
  decide +kernel

theorem exec_hostRun (second : Bool) : ∃ cache, hostServer.system.Exec (hostRun second) cache := by
  have hresponses := hostRun_responses second
  simp only [hostRun, List.map_cons, List.map_nil, List.cons.injEq, and_true] at hresponses
  have hfirst : (respond hostServer .new (hostInbound false)).1.isSome = true :=
    Option.isSome_map ▸ congrArg Option.isSome hresponses.1
  have hsecond : (respond hostServer (respond hostServer .new (hostInbound false)).2
      (hostInbound second)).1.isSome = true :=
    Option.isSome_map ▸ congrArg Option.isSome hresponses.2
  exact ⟨_, (System.Exec.nil (by rfl)).snoc (step_respond hfirst) |>.snoc (step_respond hsecond)⟩

theorem inbound_hostRun {second : Bool} {step : DnsCache × Exchange} (h : step ∈ hostRun second) :
    step.2.inbound = hostInbound false ∨ step.2.inbound = hostInbound second := by
  simp only [hostRun, List.mem_cons, List.not_mem_nil, or_false] at h
  rcases h with rfl | rfl
  · exact .inl rfl
  · exact .inr rfl

theorem answerable_hostRun {second : Bool} {step : DnsCache × Exchange}
    (h : step ∈ hostRun second) : Answerable hostServer.toServerEnv step.2.inbound := by
  rcases inbound_hostRun h with hinbound | hinbound
  · rw [hinbound]
    exact answerable_hostInbound false
  · rw [hinbound]
    exact answerable_hostInbound second

/-- The same query twice, the second time out of the cache. -/
theorem answers_belong_hostRun :
    (hostRun false).length = 2 ∧
    ∀ step ∈ hostRun false, ∀ response, step.2.response = some response →
      BelongsTo step.2.inbound response := by
  refine ⟨rfl, ?_⟩
  obtain ⟨cache, hrun⟩ := exec_hostRun false
  have hsame : ∀ step ∈ hostRun false, step.2.inbound = hostInbound false :=
    fun step hstep => (inbound_hostRun hstep).elim id id
  intro step hstep response hresponse
  refine (answers_belong_to_queries hostServer (hostRun false) cache hrun
    (fun step hstep => answerable_hostRun hstep) (fun first hfirst other hother _ => ?_) step hstep
    response hresponse).1
  rw [hsame first hfirst, hsame other hother]
  exact ⟨rfl, rfl, rfl, rfl⟩

/-- The second of two queries gets the ID of the first. -/
theorem cached_answer_of_other_query :
    (∃ cache, hostServer.system.Exec (hostRun true) cache) ∧
    (∀ step ∈ hostRun true, Answerable hostServer.toServerEnv step.2.inbound) ∧
    ∃ step ∈ hostRun true, ∃ response, step.2.response = some response ∧
      ¬ BelongsTo step.2.inbound response := by
  refine ⟨exec_hostRun true, fun step hstep => answerable_hostRun hstep, ?_⟩
  have hresponses := hostRun_responses true
  simp only [hostRun, List.map_cons, List.map_nil, List.cons.injEq, and_true] at hresponses
  obtain ⟨response, hresponse, hid⟩ := Option.map_eq_some_iff.mp hresponses.2
  refine ⟨_, List.mem_cons_of_mem _ (List.mem_singleton_self _), response, hresponse, fun h => ?_⟩
  have hquery : u16At (hostQuery true) 0 = 0x1235 := by decide
  have hwrong := h.id.symm.trans hid
  rw [show u16At (hostInbound true).query 0 = 0x1235 from hquery] at hwrong
  cases hwrong

end Synvoid.Dns
