import Synvoid.Dns.AxfrWire
import Synvoid.Dns.QuestionName
import Synvoid.Dns.RequiredTsig
import Synvoid.Dns.ZoneVersions

/-! # Incremental transfers on the wire

    An IXFR query holds the SOA record of the version that the client has. The
    server should use its serial, and if the history holds that version, the
    responses, read by RFC 1035, should list what makes it the current zone.

    `extract_ixfr_serial` (`synvoid-dns/src/server/query.rs`) reads four bytes
    behind the owner name of the SOA record. These are the type and the class,
    not the serial, and a compressed owner name is refused: `serialRead_iff`.

    Where the responses list a record, they have the question of its AXFR
    message in front of it, and they count RRsets, not records; and a full
    transfer in place of a list comes from the encoder of AXFR. They are in
    order where the request is refused, and where there is nothing to list:
    `ixfr_up_to_date`.
-/

namespace Synvoid.Dns

open Synvoid.Framework

/-! ## Section 1: The serial of a query -/

def extractIxfrSerial (query : Bytes) : Framework.Checked (Option UInt32) :=
  if query.length < 16 then return none
  else do
    let parsed ← ParsedDnsQuery.parse query
    match parsed with
    | .error _ => return none
    | .ok parsed =>
        if parsed.qtype ≠ ixfrQueryType then return none
        else
          match skipWireName query parsed.questionEnd with
          | none => return none
          | some afterSoaOwner =>
              if afterSoaOwner + 4 ≤ query.length then return some (u32At query afterSoaOwner)
              else return none

/-- An IXFR query whose authority section is an SOA record with this serial. -/
structure IxfrQuery (query : Bytes) (parsed : ParsedDnsQuery) (soa : DnsRecord) (serial : UInt32) :
    Prop where
  parse : ParsedDnsQuery.parse query = .ok (.ok parsed)
  qtype : parsed.qtype = ixfrQueryType
  counts : u16At query 4 = 1 ∧ u16At query 6 = 0 ∧ u16At query 8 = 1
  record : Framework.RecordAt query parsed.questionEnd soa
  data : ∃ mname rname refresh retry expire minimum,
    DataAt query soa (.soa mname rname serial refresh retry expire minimum)

/-- The serial is what stands where the server looks for it: the type and the class of the record,
    and zero if the owner name has a pointer. -/
def SerialInPlace (query : Bytes) (parsed : ParsedDnsQuery) (soa : DnsRecord) (serial : UInt32) :
    Prop :=
  match skipWireName query parsed.questionEnd with
  | some _ => serial.toNat = 6 * 65536 + soa.rrClass.toNat
  | none => serial = 0

/-- A name that is skipped has no pointer and ends where it is written to end. -/
theorem skipWireNameFrom_eq_of_nameAt {m : Bytes} {pos stop : Nat} {ls : List Bytes}
    (h : NameAt m pos ls stop) {fuel after : Nat}
    (hskip : skipWireNameFrom m fuel pos = some after) : after = stop := by
  induction h generalizing fuel with
  | root hlt hzero =>
    cases fuel with
    | zero => cases hskip
    | succ fuel =>
      simp only [skipWireNameFrom, if_pos hlt, hzero] at hskip
      exact (Option.some.inj hskip).symm
  | label hlt hpos hle hrest ih =>
    cases fuel with
    | zero => cases hskip
    | succ fuel =>
      rename_i pos stop ls
      have hzero : byteAt m pos ≠ 0 := by
        intro hzero
        rw [hzero] at hpos
        simp at hpos
      simp only [skipWireNameFrom, if_pos hlt, if_neg hzero] at hskip
      split at hskip
      · cases hskip
      · exact ih hskip
  | pointer hlt hpointer htarget ih =>
    cases fuel with
    | zero => cases hskip
    | succ fuel =>
      rename_i pos stop ls
      have hzero : byteAt m pos ≠ 0 := by
        intro hzero
        rw [hzero] at hpointer
        simp at hpointer
      simp only [skipWireNameFrom, if_pos (Nat.lt_of_succ_lt hlt), if_neg hzero,
        if_pos (pointerBits hpointer)] at hskip
      cases hskip

/-- **The serial that is used.** -/
theorem serialRead_iff {query : Bytes} {parsed : ParsedDnsQuery} {soa : DnsRecord}
    {serial : UInt32} (h : IxfrQuery query parsed soa serial) :
    (∃ read, extractIxfrSerial query = .ok read ∧ read.getD 0 = serial) ↔
      SerialInPlace query parsed soa serial := by
  obtain ⟨nameEnd, hname, htype, hclass, -, hstart, hstop, hlength⟩ := h.record
  obtain ⟨mname, rname, refresh, retry, expire, minimum, hsix, -⟩ := h.data
  have hread := readFrom_of_parse h.parse
  obtain ⟨_, -, hle, -⟩ := parseQname_eq_ok hread.qname
  have hquestion := hread.questionEnd
  have hend : parsed.questionEnd < nameEnd := by
    rcases hname.ends with ⟨hlt, -⟩ | ⟨hlt, -⟩ <;> omega
  have hextract : extractIxfrSerial query =
      match skipWireName query parsed.questionEnd with
      | none => .ok none
      | some afterSoaOwner =>
          if afterSoaOwner + 4 ≤ query.length then .ok (some (u32At query afterSoaOwner))
          else .ok none := by
    unfold extractIxfrSerial
    rw [if_neg (by omega), h.parse]
    simp only [bind, Except.bind, h.qtype]
    rfl
  rw [hextract, SerialInPlace]
  cases hskip : skipWireName query parsed.questionEnd with
  | none => simp [eq_comm]
  | some after =>
    obtain rfl := skipWireNameFrom_eq_of_nameAt hname hskip
    have hfield : (u32At query after).toNat = 6 * 65536 + soa.rrClass.toNat := by
      rw [toNat_u32At, ← htype, ← hclass, hsix]
      rfl
    simp only [if_pos (show after + 4 ≤ query.length by omega), Except.ok.injEq, exists_eq_left',
      Option.getD_some]
    rw [← UInt32.toNat_inj, hfield]
    exact eq_comm

/-! ## Section 2: The SOA message -/

theorem encodeLabels_end (ls : List Str) : encodeLabels ls ++ [0] = wireName (ls.map utf8) := by
  rw [wireName, List.flatMap_map]
  rfl

theorem labelsOf_sizes {name : Str} (h : ∀ label ∈ labels name, byteLen label ≤ 63) :
    ∀ l ∈ labelsOf name, 1 ≤ l.length ∧ l.length ≤ 63 := by
  intro l hl
  obtain ⟨label, hlabel, rfl⟩ := List.mem_map.mp hl
  rw [length_utf8]
  exact ⟨Nat.one_le_iff_ne_zero.mpr fun hzero =>
    ne_nil_of_mem_labels hlabel (byteLen_eq_zero.mp hzero), h label hlabel⟩

/-- A response whose only record is an SOA record. -/
def soaMessage (messageId : UInt16) (qname : Str) (soa : DnsZoneRecord) : Bytes :=
  transferHeader messageId true 1 ++ transferQuestion qname ixfrQueryType ++ ixfrSoa qname soa

/-- An SOA value that can be written: two names with labels of at most 63 bytes and five more
    fields, in an RDATA whose length fits into its field. -/
structure WritableSoa (value : Str) : Prop where
  fields : ∃ mname rname serial refresh retry expire minimum rest,
    splitWhitespace value =
      mname :: rname :: serial :: refresh :: retry :: expire :: minimum :: rest ∧
    (∀ label ∈ labels mname, byteLen label ≤ 63) ∧ ∀ label ∈ labels rname, byteLen label ≤ 63
  fits : (buildSoaRdata value).length < 65536

/-- The RDATA of such a value. -/
theorem buildSoaRdata_of_writable {value : Str} (h : WritableSoa value) :
    ∃ mname rname serial refresh retry expire minimum,
      (∀ l ∈ mname, 1 ≤ l.length ∧ l.length ≤ 63) ∧
      (∀ l ∈ rname, 1 ≤ l.length ∧ l.length ≤ 63) ∧
      buildSoaRdata value = wireName mname ++ (wireName rname ++
        soaNumbers serial refresh retry expire minimum) := by
  obtain ⟨mname, rname, serial, refresh, retry, expire, minimum, rest, hfields, hmname, hrname⟩ :=
    h.fields
  refine ⟨labelsOf mname, labelsOf rname, (parseU32 serial).getD 1, (parseU32 refresh).getD 3600,
    (parseU32 retry).getD 600, (parseU32 expire).getD 86400, (parseU32 minimum).getD 3600,
    labelsOf_sizes hmname, labelsOf_sizes hrname, ?_⟩
  rw [buildSoaRdata, hfields]
  simp only [labelsOf, ← encodeLabels_end, soaNumbers, List.append_assoc]

/-- The message is well formed, and its only answer is an SOA record. -/
theorem answersOf_soaMessage (messageId : UInt16) (qname : Str) {soa : DnsZoneRecord}
    (hsoa : WritableSoa soa.value) :
    ∃ seen, AnswersOf (soaMessage messageId qname soa) [seen] ∧ seen.rrType = 6 := by
  obtain ⟨mname, rname, serial, refresh, retry, expire, minimum, hmname, hrname, hrdata⟩ :=
    buildSoaRdata_of_writable hsoa
  have hfits := hsoa.fits
  obtain ⟨ls, hls, hname⟩ := exists_wireName qname
  let m := soaMessage messageId qname soa
  let rdata := buildSoaRdata soa.value
  let fields := recordFields 6 1 soa.ttl (UInt16.ofNat rdata.length)
  have hm : m = transferHeader messageId true 1 ++ (wireName ls ++ ((u16ToBe ixfrQueryType ++
      u16ToBe 1) ++ (wireName ls ++ (fields ++ rdata)))) := by
    simp [m, soaMessage, transferQuestion, ixfrSoa, withLength, hname, fields, recordFields, rdata]
  have hcounts := transferHeader_counts messageId true 1
    (wireName ls ++ ((u16ToBe ixfrQueryType ++ u16ToBe 1) ++ (wireName ls ++ (fields ++ rdata))))
  rw [← hm] at hcounts
  have hmessage := isMessage_written rfl hls hls rfl 6 1 soa.ttl hfits hm hcounts
  -- the data are the two names and the numbers
  let front := transferHeader messageId true 1 ++ (wireName ls ++ ((u16ToBe ixfrQueryType ++
    u16ToBe 1) ++ (wireName ls ++ fields)))
  have hsplit : m = front ++ (wireName mname ++ (wireName rname ++
      (soaNumbers serial refresh retry expire minimum ++ []))) := by
    rw [hm]
    simp [front, rdata, hrdata]
  have hlength : m.length = front.length + rdata.length := by
    rw [hm]
    simp [front]
    omega
  have hrdataLength : rdata.length = (wireName mname).length + (wireName rname).length + 20 := by
    simp only [rdata, hrdata, soaNumbers, List.length_append, length_u32ToBe]
    omega
  refine ⟨⟨ls, 6, soa.ttl, .soa mname rname serial refresh retry expire minimum⟩,
    ⟨_, hmessage, .cons ⟨rfl, rfl, rfl, rfl, ?_⟩ .nil⟩, rfl⟩
  show DataAt m _ _
  rw [hsplit]
  exact soaData_written hmname hrname serial refresh retry expire minimum front [] rfl
    (by rw [← hsplit]; show m.length - rdata.length = _; omega)
    (by rw [← hsplit]; show m.length = _; omega)

/-! ## Section 3: What the responses list -/

/-- The records of a version as a reader should see them. The priority of a mail exchanger is a
    part of its data. -/
def contents (origin : Str) (records : ZoneRecords) : Set TransferredRecord :=
  { seen | ∃ key rrset, records.lookup key = some rrset ∧
    ∃ record ∈ rrset, transferred origin key.1 record = some seen }

/-- The responses, read by RFC 1035, list these deletions and additions: the former behind the old
    SOA record, the latter behind the new one. A single SOA record lists nothing. -/
inductive ListedChanges : List Bytes → List TransferredRecord → List TransferredRecord → Prop where
  | current {m : Bytes} {soa : TransferredRecord} (h : AnswersOf m [soa]) (hsoa : soa.rrType = 6) :
      ListedChanges [m] [] []
  | changes {m m' : Bytes} {oldSoa newSoa : TransferredRecord}
      {deleted added : List TransferredRecord} (h : AnswersOf m (oldSoa :: deleted))
      (hold : oldSoa.rrType = 6) (h' : AnswersOf m' (newSoa :: added)) (hnew : newSoa.rrType = 6) :
      ListedChanges [m, m'] deleted added

/-- The responses make the old version the new one, by changes or by a full transfer. -/
def BringsUpToDate (origin : Str) (old new : ZoneRecords) (responses : List Bytes) : Prop :=
  (∃ deleted added, ListedChanges responses deleted added ∧
    { seen ∈ contents origin old | seen ∉ deleted } ∪ { seen | seen ∈ added } =
      contents origin new) ∨
  ∃ soa, TransfersZone origin new soa responses

/-- The arguments that the server makes of an IXFR query. -/
def ixfrRequest (query : Bytes) (parsed : ParsedDnsQuery) (tsig : Option TsigParseResult) :
    TransferRequest where
  qname := parsed.qname
  tsig := tsig
  messageId := parsed.id
  message := query

/-- The client's serial is used, and if the history has its version, the responses, before they are
    signed, bring it up to date. -/
def IxfrUpToDate (transfer : ZoneTransfer) (env : TransferEnvironment) (query : Bytes)
    (parsed : ParsedDnsQuery) (tsig : Option TsigParseResult) (serial : UInt32) : Prop :=
  (∃ read, extractIxfrSerial query = .ok read ∧ read.getD 0 = serial) ∧
  ∀ zone old read messages,
    env.zones.lookup (trimEndMatches '.' parsed.qname) = some zone →
    zone.getPreviousVersion serial = some old → extractIxfrSerial query = .ok read →
    transfer.handleIxfrRequestMessages env (ixfrRequest query parsed tsig) read =
      .ok (.ok messages) →
    ∃ responses, transfer.ixfrResponses env (ixfrRequest query parsed tsig) zone read =
        .ok responses ∧ List.Forall₂ MaybeSigned responses messages ∧
      BringsUpToDate (trimEndMatches '.' parsed.qname) old.records zone.records responses

/-- The request passes the checks, and there is something to answer it with. -/
structure Answered (transfer : ZoneTransfer) (env : TransferEnvironment) (request : TransferRequest)
    (zone : VersionedZone) (serial : UInt32) : Prop where
  enabled : transfer.ixfrEnabled = true
  allowed : transfer.isTransferAllowed env (trimEndMatches '.' request.qname) = true
  signed : transfer.requireTsig = true ∨
    transfer.isWildcardTransfer = true ∧ transfer.wildcardTransferRequiresTsig = true →
    request.tsig.isSome = true
  verified : ∀ tsig keys, request.tsig = some tsig → transfer.tsigVerifier = some keys →
    (verify env.hmac env.sha256 keys env.cache env.clock request.message tsig).1 = .ok ()
  answerable : transfer.IxfrAnswerable zone (some serial)

/-- Each RRset of either version is in the other one as well and does not differ in what the
    server compares: the number of records, their values and their TTLs. -/
def NothingToList (old new : ZoneRecords) : Prop :=
  ∀ key, Option.Rel (fun oldRecs newRecs => rrsetDiffers oldRecs newRecs = false)
    (old.lookup key) (new.lookup key)

/-- The version has the contents of the zone as it is, its SOA record can be written, and the
    server has nothing to list: the serial is the current one, or an older one whose records it
    takes for the current ones. -/
structure UnchangedSince (origin : Str) (zone : VersionedZone) (old : ZoneHistory)
    (serial : UInt32) : Prop where
  contents : contents origin old.records = contents origin zone.records
  soa : ∀ soa, findSoaRecord zone.toZone = some soa → WritableSoa soa.value
  nothingToList : serial = zone.serial ∨
    serial ≠ 0 ∧ serialIsNewer serial zone.serial = false ∧
      NothingToList old.records zone.records

theorem nothing_listed {old new : ZoneRecords} (h : NothingToList old new) :
    toDelete old new = [] ∧ toAdd old new = [] := by
  unfold toDelete toAdd
  constructor
  · rw [List.filterMap_eq_nil_iff]
    intro key _
    have hrel := h key
    generalize old.lookup key = oldRrset at hrel ⊢
    generalize new.lookup key = newRrset at hrel ⊢
    cases hrel with
    | none => rfl
    | some hsame => simp [hsame]
  · rw [List.filterMap_eq_nil_iff]
    intro key _
    have hrel := h key
    generalize old.lookup key = oldRrset at hrel ⊢
    generalize new.lookup key = newRrset at hrel ⊢
    cases hrel with
    | none => rfl
    | some hsame => simp [hsame]

/-- The old version has an SOA record with the same value and TTL. -/
theorem NothingToList.soa {old : ZoneRecords} {zone : Zone} (h : NothingToList old zone.records)
    {soa : DnsZoneRecord} (hsoa : findSoaRecord zone = some soa) :
    ∃ oldSoa, (old.lookup (apex, .soa)).bind List.head? = some oldSoa ∧
      oldSoa.value = soa.value ∧ oldSoa.ttl = soa.ttl := by
  have hrel := h (apex, .soa)
  unfold findSoaRecord at hsoa
  generalize old.lookup (apex, .soa) = oldRrset at hrel
  generalize zone.records.lookup (apex, .soa) = newRrset at hrel hsoa
  cases hrel with
  | none => cases hsoa
  | @some oldRecs newRecs hsame =>
    rw [Option.bind_some] at hsoa
    cases newRecs with
    | nil => cases hsoa
    | cons newSoa newRest =>
      cases oldRecs with
      | nil => simp [rrsetDiffers] at hsame
      | cons oldSoa oldRest =>
        obtain rfl := Option.some.inj hsoa
        refine ⟨oldSoa, rfl, ?_⟩
        simp only [rrsetDiffers, List.zip_cons_cons, List.any_cons, Bool.or_eq_false_iff,
          decide_eq_false_iff_not, ne_eq, not_not] at hsame
        exact hsame.2.1

theorem rrsetDiffers_self (rrset : List DnsZoneRecord) : rrsetDiffers rrset rrset = false := by
  have hnone : ∀ p : DnsZoneRecord × DnsZoneRecord → Bool, (∀ record, p (record, record) = false) →
      (rrset.zip rrset).any p = false := by
    intro p hp
    induction rrset with
    | nil => rfl
    | cons record rrset ih => rw [List.zip_cons_cons, List.any_cons, hp, ih, Bool.or_false]
  rw [rrsetDiffers, hnone _ (by simp)]
  simp

theorem nothingToList_self (records : ZoneRecords) : NothingToList records records := by
  intro key
  cases records.lookup key with
  | none => exact .none
  | some rrset => exact .some (rrsetDiffers_self rrset)

theorem buildIxfrMessage_nil (lib : TransferExternals) (messageId : UInt16) (qname : Str)
    (soa : DnsZoneRecord) :
    buildIxfrMessage lib messageId qname (some soa) [] 1 = soaMessage messageId qname soa := by
  simp [buildIxfrMessage, soaMessage]

theorem soaMessage_congr {soa soa' : DnsZoneRecord} (hvalue : soa'.value = soa.value)
    (httl : soa'.ttl = soa.ttl) (messageId : UInt16) (qname : Str) :
    soaMessage messageId qname soa' = soaMessage messageId qname soa := by
  unfold soaMessage ixfrSoa
  rw [hvalue, httl]

/-- The responses where there is nothing to list. -/
theorem responses_of_unchanged {transfer : ZoneTransfer} {env : TransferEnvironment}
    {request : TransferRequest} {origin : Str} {zone : VersionedZone} {old : ZoneHistory}
    {read : Option UInt32} (h : UnchangedSince origin zone old (read.getD 0))
    (hold : zone.getPreviousVersion (read.getD 0) = some old) {responses : List Bytes}
    (hresponses : transfer.ixfrResponses env request zone read = .ok responses) :
    ∃ soa, findSoaRecord zone.toZone = some soa ∧
      (responses = [soaMessage request.messageId request.qname soa] ∨
        responses = [soaMessage request.messageId request.qname soa,
          soaMessage request.messageId request.qname soa]) := by
  unfold ZoneTransfer.ixfrResponses at hresponses
  simp only at hresponses
  split at hresponses
  · -- the client is up to date
    unfold buildIxfrCurrentResponse at hresponses
    split at hresponses
    · cases hresponses
    · next soa hsoa => exact ⟨soa, hsoa, .inl (Except.ok.inj hresponses).symm⟩
  · next hcurrent =>
    obtain ⟨hzero, holder, hnothing⟩ := h.nothingToList.resolve_left hcurrent
    rw [if_neg (by simp [hzero, holder]), hold] at hresponses
    simp only at hresponses
    unfold buildIxfrIncrementalResponseMessages at hresponses
    split at hresponses
    · cases hresponses
    · next soa hsoa =>
      obtain ⟨hdelete, hadd⟩ := nothing_listed hnothing
      obtain ⟨oldSoa, hfirst, hvalue, httl⟩ := hnothing.soa hsoa
      simp only [hdelete, hadd, hfirst, List.length_nil] at hresponses
      refine ⟨soa, hsoa, .inr ?_⟩
      rw [← buildIxfrMessage_nil env.lib, ← Except.ok.inj hresponses]
      refine congrArg (fun m => [m, _]) ?_
      exact (buildIxfrMessage_nil env.lib _ _ oldSoa).trans
        ((soaMessage_congr hvalue httl _ _).trans (buildIxfrMessage_nil env.lib _ _ soa).symm)

/-- What is returned are the responses, signed or not. -/
theorem responses_of_handled {transfer : ZoneTransfer} {env : TransferEnvironment}
    {request : TransferRequest} {zone : VersionedZone} {read : Option UInt32}
    {messages : List Bytes}
    (hzone : env.zones.lookup (trimEndMatches '.' request.qname) = some zone)
    (h : transfer.handleIxfrRequestMessages env request read = .ok (.ok messages)) :
    ∃ responses, transfer.ixfrResponses env request zone read = .ok responses ∧
      List.Forall₂ MaybeSigned responses messages := by
  unfold ZoneTransfer.handleIxfrRequestMessages at h
  split at h
  · cases h
  · split at h
    · cases h
    · next responses haccess =>
      obtain ⟨_, -, hrest⟩ := bind_eq_ok haccess
      obtain ⟨zone', hzone', hresponses⟩ := bind_eq_ok hrest
      rw [ZoneTransfer.requestedZone, hzone] at hzone'
      obtain rfl := Except.ok.inj hzone'
      exact ⟨responses, hresponses, forall₂_of_signResponses h⟩

/-- What passes the checks. -/
theorem checks_of_access {transfer : ZoneTransfer} {env : TransferEnvironment}
    {request : TransferRequest} (h : transfer.checkAccess env request = .ok ()) :
    transfer.isTransferAllowed env (trimEndMatches '.' request.qname) = true ∧
    (transfer.requireTsig = true ∨
      transfer.isWildcardTransfer = true ∧ transfer.wildcardTransferRequiresTsig = true →
      request.tsig.isSome = true) ∧
    ∀ tsig keys, request.tsig = some tsig → transfer.tsigVerifier = some keys →
      (verify env.hmac env.sha256 keys env.cache env.clock request.message tsig).1 = .ok () := by
  unfold ZoneTransfer.checkAccess at h
  simp only at h
  split at h
  · cases h
  · next hallowed =>
    split at h
    · cases h
    · next hwildcard =>
      split at h
      · cases h
      · next hrequired =>
        refine ⟨by simpa using hallowed, ?_, ?_⟩
        · intro hneeded
          by_contra hmissing
          have hnone : request.tsig.isNone = true := by
            cases htsig : request.tsig with
            | none => rfl
            | some tsig => simp [htsig] at hmissing
          rcases hneeded with hneeded | ⟨hneeded, hneeded'⟩
          · simp [hneeded, hnone] at hrequired
          · simp [hneeded, hneeded', hnone] at hwildcard
        · intro tsig keys htsig hkeys
          rw [htsig, hkeys] at h
          simp only at h
          split at h
          · cases h
          · assumption

/-- There are responses only if there is something to answer with. -/
theorem answerable_of_responses {transfer : ZoneTransfer} {env : TransferEnvironment}
    {request : TransferRequest} {zone : VersionedZone} {read : Option UInt32}
    {responses : List Bytes}
    (h : transfer.ixfrResponses env request zone read = .ok responses) :
    transfer.IxfrAnswerable zone (some (read.getD 0)) := by
  unfold ZoneTransfer.ixfrResponses buildIxfrCurrentResponse buildIxfrFullResponseMessages
    buildIxfrIncrementalResponseMessages at h
  unfold ZoneTransfer.IxfrAnswerable
  rw [Option.getD_some]
  cases hsoa : findSoaRecord zone.toZone with
  | none =>
    -- without an SOA record every branch is an error
    simp only [hsoa] at h
    split at h
    · cases h
    · split at h
      · split at h <;> cases h
      · split at h
        · cases h
        · split at h <;> cases h
  | some soa =>
    refine ⟨rfl, ?_⟩
    by_cases hcurrent : read.getD 0 = zone.serial
    · exact .inl hcurrent
    · by_cases hfallback : transfer.ixfrFallbackToAxfr = true
      · exact .inr (.inl hfallback)
      · simp only [hsoa, if_neg hcurrent, if_neg hfallback] at h
        split at h
        · cases h
        · next holder =>
          split at h
          · next version hversion =>
            refine .inr (.inr ?_)
            simpa [hversion] using holder
          · cases h

/-- Only what passes the checks and can be answered gets messages. -/
theorem answered_of_handled {transfer : ZoneTransfer} {env : TransferEnvironment}
    {request : TransferRequest} {zone : VersionedZone} {read : Option UInt32}
    {messages : List Bytes}
    (hzone : env.zones.lookup (trimEndMatches '.' request.qname) = some zone)
    (h : transfer.handleIxfrRequestMessages env request read = .ok (.ok messages)) :
    Answered transfer env request zone (read.getD 0) := by
  obtain ⟨hallowed, hsigned, hverified⟩ := checks_of_access (ZoneTransfer.checkAccess_of_ixfr h)
  obtain ⟨responses, hresponses, -⟩ := responses_of_handled hzone h
  refine ⟨?_, hallowed, hsigned, hverified, answerable_of_responses hresponses⟩
  unfold ZoneTransfer.handleIxfrRequestMessages at h
  split at h
  · cases h
  · next henabled => simpa using henabled

/-- **IXFR.** The client's serial is used exactly if it is what stands in place of it. Then the
    responses are in order for every request that is refused, and for every request that is
    answered without anything to list, from a version with the contents of the zone as it is. -/
theorem ixfr_up_to_date (transfer : ZoneTransfer) (env : TransferEnvironment) {query : Bytes}
    {parsed : ParsedDnsQuery} (tsig : Option TsigParseResult) {soa : DnsRecord} {serial : UInt32}
    (hquery : IxfrQuery query parsed soa serial) :
    (IxfrUpToDate transfer env query parsed tsig serial →
      SerialInPlace query parsed soa serial) ∧
    (SerialInPlace query parsed soa serial →
      (∀ zone old, env.zones.lookup (trimEndMatches '.' parsed.qname) = some zone →
        zone.getPreviousVersion serial = some old →
        Answered transfer env (ixfrRequest query parsed tsig) zone serial →
        UnchangedSince (trimEndMatches '.' parsed.qname) zone old serial) →
      IxfrUpToDate transfer env query parsed tsig serial) := by
  refine ⟨fun hupToDate => (serialRead_iff hquery).mp hupToDate.1, fun hserial hunchanged =>
    ⟨(serialRead_iff hquery).mpr hserial, ?_⟩⟩
  intro zone old read messages hzone hold hread hhandled
  obtain ⟨read', hread', rfl⟩ := (serialRead_iff hquery).mpr hserial
  obtain rfl := Except.ok.inj (hread.symm.trans hread')
  obtain ⟨responses, hresponses, hsigned⟩ := responses_of_handled hzone hhandled
  have hsince := hunchanged zone old hzone hold (answered_of_handled hzone hhandled)
  refine ⟨responses, hresponses, hsigned, .inl ⟨[], [], ?_, ?_⟩⟩
  · obtain ⟨soa, hsoa, hmessages⟩ := responses_of_unchanged hsince hold hresponses
    obtain ⟨seen, hseen, hsix⟩ := answersOf_soaMessage parsed.id parsed.qname (hsince.soa soa hsoa)
    rcases hmessages with rfl | rfl
    · exact .current hseen hsix
    · exact .changes hseen hsix hseen hsix
  · rw [← hsince.contents]
    simp

/-! ## Section 4: Queries -/

/-- Header and question of an IXFR query for the zone `a`. -/
def ixfrFront : Bytes := [0, 1, 0, 0, 0, 1, 0, 0, 0, 1, 0, 0, 1, 97, 0, 0, 251, 0, 1]

/-- The query, with the SOA record of a version. -/
def ixfrExample (serial : UInt32) : Bytes :=
  ixfrFront ++ (wireName [[97]] ++ (recordFields 6 1 0 22 ++ (wireName [] ++ (wireName [] ++
    (soaNumbers serial 0 0 0 0 ++ [])))))

def ixfrParsed (serial : UInt32) : ParsedDnsQuery where
  id := 1
  flags := .fromU16 0
  qdcount := 1
  qname := ['a']
  qnameEnd := 15
  qtype := 251
  qclass := 1
  questionEnd := 19
  hasEdns := false
  dnssecOk := false
  raw := ixfrExample serial

theorem ixfrExample_query {serial : UInt32}
    (h : ParsedDnsQuery.parse (ixfrExample serial) = .ok (.ok (ixfrParsed serial))) :
    IxfrQuery (ixfrExample serial) (ixfrParsed serial) ⟨[[97]], 6, 1, 0, 32, 54⟩ serial := by
  have hlabels : ∀ l ∈ ([[97]] : List Bytes), 1 ≤ l.length ∧ l.length ≤ 63 := by simp
  have hroot : ∀ l ∈ ([] : List Bytes), 1 ≤ l.length ∧ l.length ≤ 63 := by simp
  have hlength : (wireName [] ++ (wireName [] ++ soaNumbers serial 0 0 0 0)).length = 22 := by
    simp [wireName, soaNumbers]
  have hsplit : ixfrExample serial = ixfrFront ++ (wireName [[97]] ++ (recordFields 6 1 0
      (UInt16.ofNat (wireName [] ++ (wireName [] ++ soaNumbers serial 0 0 0 0)).length) ++
        ((wireName [] ++ (wireName [] ++ soaNumbers serial 0 0 0 0)) ++ []))) := by
    rw [hlength]
    simp [ixfrExample]
  have hsplit' : ixfrExample serial = (ixfrFront ++ wireName [[97]] ++ recordFields 6 1 0 22) ++
      (wireName [] ++ (wireName [] ++ (soaNumbers serial 0 0 0 0 ++ []))) := by
    simp [ixfrExample]
  refine ⟨h, rfl, ⟨?_, ?_, ?_⟩, ?_, [], [], 0, 0, 0, 0, ?_⟩
  · exact (u16At_append_left (by decide) _).trans (by decide)
  · exact (u16At_append_left (by decide) _).trans (by decide)
  · exact (u16At_append_left (by decide) _).trans (by decide)
  · have hrecord := recordAt_written hlabels 6 1 0 (hlength.trans_lt (by decide)) ixfrFront []
    rw [← hsplit, hlength] at hrecord
    exact hrecord
  · rw [hsplit']
    exact soaData_written hroot hroot serial 0 0 0 0 _ [] rfl rfl rfl

/-- The version that a serial of 393217 stands for, and a newer serial for the same records. -/
def renumberedZone : VersionedZone :=
  { smallZone with serial := 393218, history := [⟨393217, smallZone.records, 0⟩] }

def renumberedEnvironment : TransferEnvironment :=
  { smallEnvironment with zones := Table.collect [("a".toList, renumberedZone)] }

/-- Transfers of the zone `a`. -/
def transferOfA : ZoneTransfer := { openTransfer with allowedTransfers := ["a".toList] }

theorem renumberedZone_unchanged {zone : VersionedZone} {old : ZoneHistory}
    (hzone : renumberedEnvironment.zones.lookup (trimEndMatches '.' ['a']) = some zone)
    (hold : zone.getPreviousVersion 393217 = some old) :
    UnchangedSince ['a'] zone old 393217 := by
  obtain rfl : renumberedZone = zone := Option.some.inj hzone
  obtain rfl : (⟨393217, smallZone.records, 0⟩ : ZoneHistory) = old := Option.some.inj hold
  refine ⟨rfl, ?_, .inr ⟨by decide, by decide, nothingToList_self _⟩⟩
  intro soa hsoa
  obtain rfl : (⟨apex, .soa, soaText, 300, none⟩ : DnsZoneRecord) = soa := Option.some.inj hsoa
  obtain ⟨mname, rname, serial, refresh, retry, expire, minimum, hfields, hmname, hrname, -⟩ :=
    validSoa_soaText.fields
  exact ⟨⟨mname, rname, serial, refresh, retry, expire, minimum, [], hfields, hmname, hrname⟩,
    by decide +kernel⟩

/-- The zone with another version of this serial, and without any IXFR. -/
def changedEnvironment : TransferEnvironment :=
  { smallEnvironment with
    zones := Table.collect [("a".toList, { renumberedZone with history := [⟨393217, ∅, 0⟩] })] }

theorem ixfrExample_inPlace :
    SerialInPlace (ixfrExample 393217) (ixfrParsed 393217) ⟨[[97]], 6, 1, 0, 32, 54⟩ 393217 := by
  unfold SerialInPlace
  have hskip : skipWireName (ixfrExample 393217) (ixfrParsed 393217).questionEnd = some 22 := by
    decide +kernel
  rw [hskip]
  decide

/-- The type and the class of an SOA record make 393217, so a client with this serial is
    understood. It gets two messages for a version that is the zone as it is, and is refused where
    IXFR is off, whatever has changed. -/
theorem renumbered_up_to_date :
    (∃ messages, transferOfA.handleIxfrRequestMessages renumberedEnvironment
      (ixfrRequest (ixfrExample 393217) (ixfrParsed 393217) none) (some 393217) =
        .ok (.ok messages) ∧ messages.length = 2) ∧
    IxfrUpToDate transferOfA renumberedEnvironment (ixfrExample 393217) (ixfrParsed 393217) none
      393217 ∧
    IxfrUpToDate { transferOfA with ixfrEnabled := false } changedEnvironment (ixfrExample 393217)
      (ixfrParsed 393217) none 393217 := by
  have hquery := @ixfrExample_query 393217 (by decide +kernel)
  refine ⟨⟨_, rfl, rfl⟩, ?_, ?_⟩
  · exact (ixfr_up_to_date transferOfA renumberedEnvironment none hquery).2 ixfrExample_inPlace
      fun zone old hzone hold _ => renumberedZone_unchanged hzone hold
  · refine (ixfr_up_to_date { transferOfA with ixfrEnabled := false } changedEnvironment none
      hquery).2 ixfrExample_inPlace ?_
    intro zone old _ _ hanswered
    exact absurd hanswered.enabled (by decide)

/-- A client with serial 7 is taken for one with 393217. -/
theorem serial_misread :
    IxfrQuery (ixfrExample 7) (ixfrParsed 7) ⟨[[97]], 6, 1, 0, 32, 54⟩ 7 ∧
    extractIxfrSerial (ixfrExample 7) = .ok (some 393217) ∧
    ¬ IxfrUpToDate transferOfA renumberedEnvironment (ixfrExample 7) (ixfrParsed 7) none 7 := by
  have hread : extractIxfrSerial (ixfrExample 7) = .ok (some 393217) := by decide +kernel
  refine ⟨ixfrExample_query (by decide +kernel), hread, ?_⟩
  rintro ⟨⟨read, hread', hserial⟩, -⟩
  obtain rfl := Except.ok.inj (hread.symm.trans hread')
  revert hserial
  decide

end Synvoid.Dns
