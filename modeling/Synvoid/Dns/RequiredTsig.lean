import Synvoid.Dns.AxfrWire
import Synvoid.Dns.Cache
import Synvoid.Dns.QueryHandler
import Synvoid.Dns.QuestionName
import Synvoid.Dns.UpdateBounds

/-! # Required signatures

    Four handlers can be told to require a TSIG record: `handle_update`,
    `handle_notify` (`synvoid-dns/src/notify.rs`, modelled here) and the two of
    zone transfers. A request should take effect then only if it carries a
    record for which a configured verifier's `verify` returned `Ok`.

    Updates and transfers verify the record if a verifier is attached, and
    without one they are content with a record that is there; notifications are
    never verified. `required_tsig_enforced_iff` says for which requests this
    makes no difference.

    The counters and what a handler sends to secondaries are left out.
-/

namespace Synvoid.Dns

open Synvoid.Framework

/-- `if name.ends_with('.') { name[..name.len() - 1] } else { name }`. -/
def withoutFinalDot (name : Str) : Str :=
  if name.getLast? = some '.' then name.dropLast else name

/-! ## Section 1: Updates of the stored zones -/

/-- The zones, and the readings of the clock while one of them is changed. -/
structure UpdateStore where
  lib : Externals
  zones : Table Str VersionedZone
  now : UInt64
  timestamp : UInt64

/-- What an update does to the store: the zone that is written under its origin, if any, and the
    RCODE. -/
def UpdateStore.update (store : UpdateStore) (zone : UpdateZone)
    (prerequisites : List UpdatePrerequisite) (updates : List UpdateRecord) :
    Except Str (Option (Str × VersionedZone) × UInt8) :=
  match store.zones.lookup (withoutFinalDot zone.name) with
  | none => .error "Zone not found".toList
  | some stored =>
      let (updated, rcode) :=
        stored.update store.lib prerequisites updates store.now store.timestamp
      .ok (updated.map fun updated => (withoutFinalDot zone.name, updated), rcode)

namespace DynamicUpdateHandler

variable (handler : DynamicUpdateHandler) (env : UpdateEnvironment) (store : UpdateStore)

/-- The TSIG record of an update, behind its three other sections. -/
def updateTsig (query : Bytes) : Checked (Option TsigParseResult) := do
  let qdcount ← readU16 query 4
  let ancount ← readU16 query 6
  let nscount ← readU16 query 8
  let additionalOffset ← computeAdditionalSectionOffset query 12 qdcount ancount nscount
  parseTsigFromQuery query additionalOffset

/-- The handler up to the parsed update. -/
def admitUpdate (query : Bytes) : Checked (Except Str DynamicUpdate) :=
  match handler.refuses env query with
  | some text => parserError text
  | none => do
      let tsig ← updateTsig query
      match handler.checkTsig env query tsig with
      | .error e => return .error e
      | .ok () => DynamicUpdate.parse query

/-- The update itself, on the store. -/
def applyToStore (query : Bytes) (update : DynamicUpdate) :
    Checked (Except Str (Bytes × Option (Str × VersionedZone))) :=
  match update.zone with
  | none => parserError "No zone in UPDATE"
  | some zone =>
      match store.update zone update.prerequisites update.updates with
      | .error e => return .error e
      | .ok (written, rcode) => do
          let response ← buildResponse query rcode
          return .ok (response, written)

/-- `handle_update`, with the zone it writes. -/
def handleUpdateOn (query : Bytes) : Checked (Except Str (Bytes × Option (Str × VersionedZone))) :=
  tryBind (handler.admitUpdate env query) (applyToStore store query)

/-- The environment whose updates are those of the store. -/
def onStore : UpdateEnvironment :=
  { env with applyUpdate := fun zone prerequisites updates =>
      (store.update zone prerequisites updates).map Prod.snd }

theorem handleUpdate_eq (query : Bytes) :
    handler.handleUpdate env query =
      tryBind (handler.admitUpdate env query) (applyParsed env query) := by
  unfold handleUpdate admitUpdate
  cases handler.refuses env query with
  | some text => rfl
  | none =>
    simp only [updateTsig, tryBind, bind_assoc]
    refine bind_congr fun qdcount => bind_congr fun ancount => bind_congr fun nscount =>
      bind_congr fun additionalOffset => bind_congr fun tsig => ?_
    cases handler.checkTsig env query tsig <;> rfl

theorem applyParsed_onStore (query : Bytes) (update : DynamicUpdate) :
    applyParsed (onStore env store) query update =
      (applyToStore store query update).map fun result => result.map Prod.fst := by
  unfold applyParsed applyToStore onStore
  cases update.zone with
  | none => rfl
  | some zone =>
    simp only
    cases store.update zone update.prerequisites update.updates with
    | error e => rfl
    | ok result =>
      obtain ⟨response, hresponse⟩ := buildResponse_safe query result.2
      simp only [Except.map, hresponse]
      rfl

/-- The response is that of `handleUpdate`. -/
theorem handleUpdate_onStore (query : Bytes) :
    handler.handleUpdate (onStore env store) query =
      (handler.handleUpdateOn env store query).map fun result => result.map Prod.fst := by
  rw [handleUpdate_eq, handleUpdateOn]
  have hadmitted : handler.admitUpdate (onStore env store) query =
      handler.admitUpdate env query := rfl
  rw [hadmitted]
  rcases handler.admitUpdate env query with panic | (e | update)
  · rfl
  · rfl
  · exact applyParsed_onStore env store query update

/-- The zone of the message is there, its prerequisites hold, and its changes leave a zone that
    can be published. -/
def Applicable (query : Bytes) : Prop :=
  ∃ update zone stored, DynamicUpdate.parse query = .ok (.ok update) ∧ update.zone = some zone ∧
    store.zones.lookup (withoutFinalDot zone.name) = some stored ∧
    update.prerequisites.all (checkPrerequisite stored.toZone) = true ∧ update.updates ≠ [] ∧
    (stored.changed update.updates store.now store.timestamp).validateZoneForActivation store.lib =
      .ok ()

/-- A zone is written. -/
def Writes (query : Bytes) : Prop :=
  ∃ response written, handler.handleUpdateOn env store query = .ok (.ok (response, some written))

variable {handler env store} {query : Bytes}

theorem isSome_update_iff {lib : Externals} {stored : VersionedZone}
    {prerequisites : List UpdatePrerequisite} {updates : List UpdateRecord}
    {now timestamp : UInt64} :
    (stored.update lib prerequisites updates now timestamp).1.isSome = true ↔
      prerequisites.all (checkPrerequisite stored.toZone) = true ∧ updates ≠ [] ∧
      (stored.changed updates now timestamp).validateZoneForActivation lib = .ok () := by
  unfold VersionedZone.update
  split
  · next hfails => simp_all
  · next hholds =>
    split
    · next hempty => simp [hempty]
    · next hupdates =>
      simp only
      cases hvalid : (stored.changed updates now timestamp).validateZoneForActivation lib with
      | error e => simp
      | ok u => simp_all

/-- What comes behind the admission of an update. -/
theorem applyToStore_writes_iff {update : DynamicUpdate} :
    (∃ response written, applyToStore store query update = .ok (.ok (response, some written))) ↔
      ∃ zone stored, update.zone = some zone ∧
        store.zones.lookup (withoutFinalDot zone.name) = some stored ∧
        (stored.update store.lib update.prerequisites update.updates store.now
          store.timestamp).1.isSome = true := by
  unfold applyToStore UpdateStore.update
  constructor
  · rintro ⟨response, written, h⟩
    split at h
    · cases h
    · next zone hzone =>
      split at h
      · cases h
      · next result rcode hresult =>
        obtain ⟨_, -, h⟩ := bind_eq_ok h
        obtain rfl : result = some written := by cases h; rfl
        split at hresult
        · cases hresult
        · next stored hstored =>
          refine ⟨zone, stored, hzone, hstored, ?_⟩
          have hwritten : (stored.update store.lib update.prerequisites update.updates store.now
              store.timestamp).1.map (fun updated => (withoutFinalDot zone.name, updated)) =
              some written := congrArg Prod.fst (Except.ok.inj hresult)
          obtain ⟨updated, hupdated, -⟩ := Option.map_eq_some_iff.mp hwritten
          rw [hupdated]
          rfl
  · rintro ⟨zone, stored, hzone, hstored, hwritten⟩
    obtain ⟨updated, hupdated⟩ := Option.isSome_iff_exists.mp hwritten
    obtain ⟨response, hresponse⟩ := buildResponse_safe query (stored.update store.lib
      update.prerequisites update.updates store.now store.timestamp).2
    refine ⟨response, (withoutFinalDot zone.name, updated), ?_⟩
    simp only [hzone, hstored, hupdated, hresponse, Option.map_some]
    rfl

theorem checkTsig_eq_ok_iff (hrequired : handler.requireTsig = true)
    {tsig : Option TsigParseResult} :
    handler.checkTsig env query tsig = .ok () ↔ ∃ record, tsig = some record ∧
      ∀ keys, handler.tsigVerifier = some keys →
        (verify env.hmac env.sha256 keys env.cache env.clock query record).1 = .ok () := by
  unfold checkTsig
  rw [if_pos hrequired]
  cases tsig with
  | none => simp
  | some record =>
    cases handler.tsigVerifier with
    | none => simp
    | some keys =>
      simp only [Option.some.injEq, exists_eq_left', forall_eq']
      cases (verify env.hmac env.sha256 keys env.cache env.clock query record).1 <;> simp

/-- An update is admitted if it is not refused and its signature is there and passes the verifier,
    if there is one. -/
theorem admitUpdate_eq_ok_iff (hrequired : handler.requireTsig = true) {update : DynamicUpdate} :
    handler.admitUpdate env query = .ok (.ok update) ↔
      handler.refuses env query = none ∧ DynamicUpdate.parse query = .ok (.ok update) ∧
      ∃ tsig, updateTsig query = .ok (some tsig) ∧ ∀ keys, handler.tsigVerifier = some keys →
        (verify env.hmac env.sha256 keys env.cache env.clock query tsig).1 = .ok () := by
  unfold admitUpdate
  constructor
  · intro h
    split at h
    · cases h
    · next hrefuses =>
      obtain ⟨tsig, htsig, h⟩ := bind_eq_ok h
      split at h
      · cases h
      · next hcheck =>
        obtain ⟨record, rfl, hverify⟩ := (checkTsig_eq_ok_iff hrequired).mp hcheck
        exact ⟨hrefuses, h, record, htsig, hverify⟩
  · rintro ⟨hrefuses, hparse, record, htsig, hverify⟩
    have hcheck := (checkTsig_eq_ok_iff hrequired).mpr ⟨record, rfl, hverify⟩
    rw [hrefuses, htsig]
    simp only [bind, Except.bind, hcheck, hparse]

/-- **Updates.** Besides the checks that have nothing to do with the signature, there has to be a
    TSIG record, and an attached verifier has to pass it. -/
theorem writes_iff (hrequired : handler.requireTsig = true) :
    handler.Writes env store query ↔
      handler.refuses env query = none ∧ Applicable store query ∧
      ∃ tsig, updateTsig query = .ok (some tsig) ∧ ∀ keys, handler.tsigVerifier = some keys →
        (verify env.hmac env.sha256 keys env.cache env.clock query tsig).1 = .ok () := by
  unfold Writes handleUpdateOn
  constructor
  · rintro ⟨response, written, h⟩
    obtain ⟨e, -, h⟩ | ⟨update, hadmitted, h⟩ := tryBind_eq_ok h
    · cases h
    · obtain ⟨hrefuses, hparse, hsigned⟩ := (admitUpdate_eq_ok_iff hrequired).mp hadmitted
      obtain ⟨zone, stored, hzone, hstored, hupdate⟩ :=
        applyToStore_writes_iff.mp ⟨response, written, h⟩
      exact ⟨hrefuses, ⟨update, zone, stored, hparse, hzone, hstored, isSome_update_iff.mp hupdate⟩,
        hsigned⟩
  · rintro ⟨hrefuses, ⟨update, zone, stored, hparse, hzone, hstored, hupdate⟩, hsigned⟩
    have hadmitted := (admitUpdate_eq_ok_iff hrequired).mpr ⟨hrefuses, hparse, hsigned⟩
    obtain ⟨response, written, h⟩ :=
      applyToStore_writes_iff.mpr ⟨zone, stored, hzone, hstored, isSome_update_iff.mpr hupdate⟩
    exact ⟨response, written, by rw [hadmitted]; exact h⟩

end DynamicUpdateHandler

/-! ## Section 2: Notifications -/

structure NotifyHandler where
  enabled : Bool
  sourceAllowlist : List Str
  requireTsig : Bool
  tsigVerifier : Option TsigKeys
  /-- In nanoseconds. -/
  minNotifyInterval : Nat

/-- What a notification is handled with; the last four are what a verification would read. -/
structure NotifyEnvironment where
  /-- Whether a text is a network that contains the client's address. -/
  networkContains : Str → Bool
  clientIp : Framework.IpAddr
  zones : Table Str VersionedZone
  now : Nat
  hmac : Hmac
  sha256 : Bytes → Bytes
  replayCache : ReplayCache
  clock : ClockReads

/-- What a notification changes. -/
structure NotifyState where
  cache : Option DnsCache
  notifyTimestamps : Table Str Nat

def rcodeNoError : UInt8 := 0
def rcodeNxDomain : UInt8 := 3

/-- `build_notify_response`: the header and the question. -/
def buildNotifyResponse (query : Bytes) (rcode : UInt8) : Checked Bytes := do
  let parsed ← ParsedDnsQuery.parse query
  match parsed with
  | .error _ => return []
  | .ok parsed => do
      let question ← range parsed.raw 12 parsed.questionEnd
      return u16ToBe parsed.id ++
        u16ToBe (buildResponseFlagsFromQuery parsed true false false false rcode) ++
        u16ToBe 1 ++ u16ToBe 0 ++ u16ToBe 0 ++ u16ToBe 0 ++ question

namespace NotifyHandler

variable (handler : NotifyHandler) (env : NotifyEnvironment) (state : NotifyState)

def isSourceAllowed : Bool :=
  handler.sourceAllowlist.isEmpty || handler.sourceAllowlist.any fun allowed =>
    allowed == ['*'] || env.networkContains allowed ||
      Framework.IpAddr.parse allowed == some env.clientIp

/-- The test of `is_rate_limited`. -/
def rateLimited (zoneOrigin : Str) : Bool :=
  match state.notifyTimestamps.lookup zoneOrigin with
  | some lastTime => env.now - lastTime < handler.minNotifyInterval
  | none => false

/-- Whether a required TSIG record is there. It is looked for behind the question and not
    verified. -/
def tsigPresent (query : Bytes) (parsed : ParsedDnsQuery) : Checked Bool :=
  if handler.requireTsig then do
    let tsig ← parseTsigFromQuery query parsed.questionEnd
    return tsig.isSome
  else return true

/-- A notification that may be acted on. -/
def acceptNotify (query : Bytes) (zoneOrigin : Str) : Checked (Option Bytes × NotifyState) :=
  if handler.rateLimited env state zoneOrigin then do
    let response ← buildNotifyResponse query rcodeNoError
    return (some response, state)
  else do
    let found := (env.zones.lookup zoneOrigin).isSome
    let response ← buildNotifyResponse query (if found then rcodeNoError else rcodeNxDomain)
    return (some response,
      { cache := if found then state.cache.map fun cache => cache.invalidateZone zoneOrigin
          else state.cache
        notifyTimestamps := state.notifyTimestamps.insert zoneOrigin env.now })

/-- `handle_notify`. The message is parsed once here; the second time gives the same. -/
def handleNotify (query : Bytes) : Checked (Option Bytes × NotifyState) :=
  if !handler.enabled || !handler.isSourceAllowed env then return (none, state)
  else do
    let parsed ← ParsedDnsQuery.parse query
    match parsed with
    | .error _ => return (none, state)
    | .ok parsed => do
        let present ← handler.tsigPresent query parsed
        if !present || !parsed.isNotify || parsed.flags.isResponse then return (none, state)
        else handler.acceptNotify env state query (withoutFinalDot parsed.qname)

/-- The cache has an entry that the invalidation of the zone drops. -/
def HoldsEntryOf (zoneOrigin : Str) : Prop :=
  ∃ cache key, state.cache = some cache ∧ (cache.entries.get key).isSome = true ∧
    DnsCache.dominated zoneOrigin key.qname = true

/-- An entry is gone from the cache afterwards. -/
def Invalidates (query : Bytes) : Prop :=
  ∃ response state' cache cache' key,
    handler.handleNotify env state query = .ok (response, state') ∧
    state.cache = some cache ∧ state'.cache = some cache' ∧
    (cache.entries.get key).isSome = true ∧ cache'.entries.get key = none

/-- The checks of a notification, the one for a TSIG record apart. -/
def Acceptable (query : Bytes) (parsed : ParsedDnsQuery) : Prop :=
  handler.enabled = true ∧ handler.isSourceAllowed env = true ∧
    ParsedDnsQuery.parse query = .ok (.ok parsed) ∧ parsed.isNotify = true ∧
    parsed.flags.isResponse = false ∧
    handler.rateLimited env state (withoutFinalDot parsed.qname) = false ∧
    (env.zones.lookup (withoutFinalDot parsed.qname)).isSome = true ∧
    HoldsEntryOf state (withoutFinalDot parsed.qname)

variable {handler env state} {query : Bytes}

theorem buildNotifyResponse_safe (query : Bytes) (rcode : UInt8) :
    Safe (buildNotifyResponse query rcode) := by
  unfold buildNotifyResponse
  obtain ⟨result, hresult⟩ := ParsedDnsQuery.parse_safe query
  rw [hresult]
  cases result with
  | error e => exact safe_pure _
  | ok parsed =>
    have hread := readFrom_of_parse hresult
    obtain ⟨_, -, hle, -⟩ := parseQname_eq_ok hread.qname
    refine (safe_range_bind _ _ _ _).mpr ⟨⟨?_, ?_⟩, safe_pure _⟩
    · rw [hread.questionEnd]
      omega
    · rw [hread.questionEnd, hread.raw]
      exact hread.length

/-- What becomes of the cache when a notification is acted on. -/
theorem acceptNotify_invalidates_iff {zoneOrigin : Str} :
    (∃ response state' cache cache' key,
      handler.acceptNotify env state query zoneOrigin = .ok (response, state') ∧
      state.cache = some cache ∧ state'.cache = some cache' ∧
      (cache.entries.get key).isSome = true ∧ cache'.entries.get key = none) ↔
    handler.rateLimited env state zoneOrigin = false ∧
      (env.zones.lookup zoneOrigin).isSome = true ∧ HoldsEntryOf state zoneOrigin := by
  unfold acceptNotify
  constructor
  · rintro ⟨response, state', cache, cache', key, h, hcache, hcache', hkey, hgone⟩
    split at h
    · -- a notification that comes too soon changes nothing
      obtain ⟨_, -, h⟩ := bind_eq_ok h
      obtain ⟨-, rfl⟩ := Prod.mk.inj (Except.ok.inj h)
      obtain rfl := Option.some.inj (hcache.symm.trans hcache')
      rw [hgone] at hkey
      cases hkey
    · next hlimited =>
      obtain ⟨_, -, h⟩ := bind_eq_ok h
      obtain ⟨-, rfl⟩ := Prod.mk.inj (Except.ok.inj h)
      simp only [hcache] at hcache'
      split at hcache'
      · next hfound =>
        obtain rfl := Option.some.inj hcache'
        simp only [DnsCache.invalidateZone, IndexedTable.get_invalidateGroups] at hgone
        split at hgone
        · next hdominated =>
          exact ⟨by simpa using hlimited, hfound, cache, key, hcache, hkey, hdominated⟩
        · rw [hgone] at hkey
          cases hkey
      · obtain rfl := Option.some.inj hcache'
        rw [hgone] at hkey
        cases hkey
  · rintro ⟨hlimited, hzone, cache, key, hcache, hkey, hdominated⟩
    obtain ⟨response, hresponse⟩ := buildNotifyResponse_safe query rcodeNoError
    refine ⟨some response, ⟨some (cache.invalidateZone zoneOrigin),
      state.notifyTimestamps.insert zoneOrigin env.now⟩, cache, _, key, ?_, hcache, rfl, hkey, ?_⟩
    · simp only [hlimited, hzone, if_true, hresponse, hcache]
      rfl
    · simp only [DnsCache.invalidateZone, IndexedTable.get_invalidateGroups, hdominated, if_true]

/-- **Notifications.** A TSIG record has to be there, and it is not verified. -/
theorem invalidates_iff (hrequired : handler.requireTsig = true) :
    handler.Invalidates env state query ↔
      ∃ parsed tsig, handler.Acceptable env state query parsed ∧
        parseTsigFromQuery query parsed.questionEnd = .ok (some tsig) := by
  unfold Invalidates handleNotify Acceptable
  constructor
  · rintro ⟨response, state', cache, cache', key, h, hcache, hcache', hkey, hgone⟩
    have hsame : ∀ {r : Option Bytes}, (r, state) ≠ (response, state') := by
      rintro r hstate
      obtain ⟨-, rfl⟩ := Prod.mk.inj hstate
      obtain rfl := Option.some.inj (hcache.symm.trans hcache')
      rw [hgone] at hkey
      cases hkey
    split at h
    · exact absurd (Except.ok.inj h) hsame
    · next hopen =>
      obtain ⟨result, hresult, h⟩ := bind_eq_ok h
      split at h
      · exact absurd (Except.ok.inj h) hsame
      · next parsed =>
        obtain ⟨present, hpresent, h⟩ := bind_eq_ok h
        split at h
        · exact absurd (Except.ok.inj h) hsame
        · next hchecks =>
          obtain ⟨hlimited, hzone, hentry⟩ := acceptNotify_invalidates_iff.mp
            ⟨response, state', cache, cache', key, h, hcache, hcache', hkey, hgone⟩
          rw [tsigPresent, if_pos hrequired] at hpresent
          obtain ⟨tsig, htsig, hsome⟩ := bind_eq_ok hpresent
          obtain rfl := Except.ok.inj hsome
          simp only [Bool.or_eq_true, Bool.not_eq_true', not_or, Bool.not_eq_false,
            Bool.not_eq_true] at hopen hchecks
          obtain ⟨record, rfl⟩ := Option.isSome_iff_exists.mp hchecks.1.1
          exact ⟨parsed, record, ⟨hopen.1, hopen.2, hresult, hchecks.1.2, hchecks.2, hlimited,
            hzone, hentry⟩, htsig⟩
  · rintro ⟨parsed, tsig, ⟨henabled, hallowed, hparse, hnotify, hquery, haccept⟩, htsig⟩
    obtain ⟨response, state', cache, cache', key, h, hrest⟩ :=
      acceptNotify_invalidates_iff.mpr haccept
    refine ⟨response, state', cache, cache', key, ?_, hrest⟩
    have hpresent : handler.tsigPresent query parsed = .ok true := by
      rw [tsigPresent, if_pos hrequired, htsig]
      rfl
    rw [henabled, hallowed, hparse]
    simp only [bind, Except.bind, hpresent, hnotify, hquery]
    exact h

end NotifyHandler

/-! ## Section 3: Transfers -/

namespace ZoneTransfer

variable {transfer : ZoneTransfer} {env : TransferEnvironment} {request : TransferRequest}

theorem checkAccess_eq_ok_iff (hrequired : transfer.requireTsig = true) :
    transfer.checkAccess env request = .ok () ↔
      transfer.isTransferAllowed env (trimEndMatches '.' request.qname) = true ∧
      ∃ tsig, request.tsig = some tsig ∧ ∀ keys, transfer.tsigVerifier = some keys →
        (verify env.hmac env.sha256 keys env.cache env.clock request.message tsig).1 = .ok () := by
  unfold checkAccess
  constructor
  · intro h
    simp only at h
    split at h
    · cases h
    · next hallowed =>
      split at h
      · cases h
      · split at h
        · cases h
        · next hpresent =>
          obtain ⟨tsig, htsig⟩ : ∃ tsig, request.tsig = some tsig :=
            Option.ne_none_iff_exists'.mp (by simpa [hrequired] using hpresent)
          refine ⟨by simpa using hallowed, tsig, htsig, fun keys hkeys => ?_⟩
          rw [htsig, hkeys] at h
          simp only at h
          split at h
          · cases h
          · assumption
  · rintro ⟨hallowed, tsig, htsig, hverify⟩
    simp only [hallowed, htsig, Option.isNone_some, Bool.and_false]
    cases hkeys : transfer.tsigVerifier with
    | none => rfl
    | some keys =>
      simp only [hverify keys hkeys]
      rfl

/-- The zone has something to transfer. -/
def HasRecords (zone : Zone) : Prop :=
  (findSoaRecord zone).isSome = true ∨ ∃ entry ∈ zone.records.entries, entry.1.2 ≠ .soa

theorem axfrMessages_ne_nil_iff {lib : TransferExternals} {messageId : UInt16}
    {qname origin : Str} {zone : Zone} :
    axfrMessages lib messageId qname origin zone ≠ [] ↔ HasRecords zone := by
  have hmessages : axfrRecordMessages lib messageId origin zone.records = [] ↔
      ¬ ∃ entry ∈ zone.records.entries, entry.1.2 ≠ .soa := by
    unfold axfrRecordMessages
    rw [List.map_eq_nil_iff, List.filter_eq_nil_iff, not_exists]
    simp only [decide_eq_true_eq, not_and]
  unfold axfrMessages HasRecords
  cases hsoa : findSoaRecord zone with
  | some soa => simp
  | none => simp [hmessages]

/-- There are an SOA record and, if the client's serial is not the current one, a version of the
    zone with this serial or the full transfer in its place. -/
def IxfrAnswerable (transfer : ZoneTransfer) (zone : VersionedZone) (serial : Option UInt32) :
    Prop :=
  (findSoaRecord zone.toZone).isSome = true ∧
    (serial.getD 0 = zone.serial ∨ transfer.ixfrFallbackToAxfr = true ∨
      serial.getD 0 ≠ 0 ∧ serialIsNewer (serial.getD 0) zone.serial = false ∧
        (zone.getPreviousVersion (serial.getD 0)).isSome = true)

theorem ixfrResponses_iff {zone : VersionedZone} {serial : Option UInt32} :
    (∃ responses, transfer.ixfrResponses env request zone serial = .ok responses ∧
      responses ≠ []) ↔ transfer.IxfrAnswerable zone serial := by
  unfold ixfrResponses buildIxfrCurrentResponse buildIxfrFullResponseMessages
    buildIxfrIncrementalResponseMessages IxfrAnswerable
  cases hsoa : findSoaRecord zone.toZone with
  | none =>
    -- without an SOA record every branch is an error
    refine iff_of_false ?_ (by simp)
    rintro ⟨responses, h, -⟩
    simp only at h
    split at h
    · cases h
    · split at h
      · split at h <;> cases h
      · split at h
        · cases h
        · split at h <;> cases h
  | some soa =>
    have hmessages : axfrMessages env.lib request.messageId request.qname zone.origin zone.toZone ≠
        [] := axfrMessages_ne_nil_iff.mpr (.inl (by rw [hsoa]; rfl))
    have hanswer : ∀ {responses : List Bytes}, responses ≠ [] →
        ∃ responses', (Except.ok responses : Except Str (List Bytes)) = .ok responses' ∧
          responses' ≠ [] := fun h => ⟨_, rfl, h⟩
    simp only [Option.isSome_some, true_and]
    by_cases hcurrent : serial.getD 0 = zone.serial
    · rw [if_pos hcurrent]
      exact iff_of_true (hanswer (List.cons_ne_nil _ _)) (.inl hcurrent)
    · rw [if_neg hcurrent]
      by_cases hfallback : transfer.ixfrFallbackToAxfr = true
      · -- the full transfer is there for everything else
        refine iff_of_true ?_ (.inr (.inl hfallback))
        rw [if_pos hfallback]
        split
        · exact hanswer hmessages
        · split
          · exact hanswer (List.cons_ne_nil _ _)
          · exact hanswer hmessages
      · rw [if_neg hfallback]
        rw [or_iff_right hcurrent, or_iff_right hfallback]
        split
        · next hnewer =>
          refine iff_of_false (by simp) ?_
          rintro ⟨hzero, hold, -⟩
          simp [hzero, hold] at hnewer
        · next hnewer =>
          cases hversion : zone.getPreviousVersion (serial.getD 0) with
          | none => simp
          | some version =>
            refine iff_of_true (hanswer (List.cons_ne_nil _ _)) ?_
            simpa [hversion] using hnewer

/-- Data is returned only for a request that passes the checks. -/
theorem checkAccess_of_axfr {isTcp : Bool} {messages : List Bytes}
    (h : transfer.handleAxfrRequestMessages env request isTcp = .ok (.ok messages)) :
    transfer.checkAccess env request = .ok () := by
  unfold handleAxfrRequestMessages at h
  split at h
  · cases h
  · split at h
    · cases h
    · split at h
      · cases h
      · next haccess =>
        obtain ⟨_, hok, -⟩ := bind_eq_ok haccess
        exact hok

theorem checkAccess_of_ixfr {serial : Option UInt32} {messages : List Bytes}
    (h : transfer.handleIxfrRequestMessages env request serial = .ok (.ok messages)) :
    transfer.checkAccess env request = .ok () := by
  unfold handleIxfrRequestMessages at h
  split at h
  · cases h
  · split at h
    · cases h
    · next haccess =>
      obtain ⟨_, hok, -⟩ := bind_eq_ok haccess
      exact hok

theorem requestedZone_eq_ok_iff {zone : VersionedZone} :
    requestedZone env request = .ok zone ↔
      env.zones.lookup (trimEndMatches '.' request.qname) = some zone := by
  unfold requestedZone
  split
  · next hlookup => simp [hlookup]
  · next hlookup => simp [hlookup]

/-- Without a verifier nothing is signed. -/
theorem signResponses_of_none (h : transfer.tsigVerifier = none) (responses : List Bytes) :
    transfer.signResponses env request responses = .ok (.ok responses) := by
  unfold signResponses
  rw [h]
  cases request.tsig <;> rfl

section noVerifier

variable (hrequired : transfer.requireTsig = true) (hnone : transfer.tsigVerifier = none)
include hrequired hnone

/-- Without a verifier a TSIG record has only to be there. -/
theorem checkAccess_of_noVerifier :
    transfer.checkAccess env request = .ok () ↔
      transfer.isTransferAllowed env (trimEndMatches '.' request.qname) = true ∧
        request.tsig.isSome = true := by
  rw [checkAccess_eq_ok_iff hrequired, Option.isSome_iff_exists]
  refine and_congr_right fun _ => exists_congr fun tsig => and_iff_left fun keys hkeys => ?_
  rw [hnone] at hkeys
  cases hkeys

theorem axfr_of_noVerifier {isTcp : Bool} :
    (∃ messages, transfer.handleAxfrRequestMessages env request isTcp = .ok (.ok messages) ∧
      messages ≠ []) ↔
    transfer.axfrEnabled = true ∧ (transfer.tcpOnly = true → isTcp = true) ∧
      transfer.isTransferAllowed env (trimEndMatches '.' request.qname) = true ∧
      request.tsig.isSome = true ∧
      ∃ zone, env.zones.lookup (trimEndMatches '.' request.qname) = some zone ∧
        HasRecords zone.toZone := by
  rw [← and_assoc (b := request.tsig.isSome = true), ← checkAccess_of_noVerifier hrequired hnone]
  unfold handleAxfrRequestMessages
  constructor
  · rintro ⟨messages, h, hne⟩
    split at h
    · cases h
    · next henabled =>
      split at h
      · cases h
      · next htcp =>
        split at h
        · cases h
        · next zone haccess =>
          obtain ⟨_, hok, hzone⟩ := bind_eq_ok haccess
          rw [signResponses_of_none hnone] at h
          obtain rfl := Except.ok.inj (Except.ok.inj h)
          exact ⟨by simpa using henabled, by simpa using htcp, hok, zone,
            requestedZone_eq_ok_iff.mp hzone, axfrMessages_ne_nil_iff.mp hne⟩
  · rintro ⟨henabled, htcp, hok, zone, hzone, hrecords⟩
    refine ⟨axfrMessages env.lib request.messageId request.qname
      (trimEndMatches '.' request.qname) zone.toZone, ?_, axfrMessages_ne_nil_iff.mpr hrecords⟩
    rw [if_neg (by simp [henabled]), if_neg (by simpa using htcp), hok]
    simp only [Except.bind, requestedZone_eq_ok_iff.mpr hzone]
    exact signResponses_of_none hnone _

theorem ixfr_of_noVerifier {serial : Option UInt32} :
    (∃ messages, transfer.handleIxfrRequestMessages env request serial = .ok (.ok messages) ∧
      messages ≠ []) ↔
    transfer.ixfrEnabled = true ∧
      transfer.isTransferAllowed env (trimEndMatches '.' request.qname) = true ∧
      request.tsig.isSome = true ∧
      ∃ zone, env.zones.lookup (trimEndMatches '.' request.qname) = some zone ∧
        transfer.IxfrAnswerable zone serial := by
  rw [← and_assoc (b := request.tsig.isSome = true), ← checkAccess_of_noVerifier hrequired hnone]
  unfold handleIxfrRequestMessages
  constructor
  · rintro ⟨messages, h, hne⟩
    split at h
    · cases h
    · next henabled =>
      split at h
      · cases h
      · next responses haccess =>
        obtain ⟨_, hok, hrest⟩ := bind_eq_ok haccess
        obtain ⟨zone, hzone, hresponses⟩ := bind_eq_ok hrest
        rw [signResponses_of_none hnone] at h
        obtain rfl := Except.ok.inj (Except.ok.inj h)
        exact ⟨by simpa using henabled, hok, zone, requestedZone_eq_ok_iff.mp hzone,
          ixfrResponses_iff.mp ⟨_, hresponses, hne⟩⟩
  · rintro ⟨henabled, hok, zone, hzone, hanswerable⟩
    obtain ⟨responses, hresponses, hne⟩ := ixfrResponses_iff.mpr hanswerable
    refine ⟨responses, ?_, hne⟩
    rw [if_neg (by simp [henabled]), hok]
    simp only [Except.bind, requestedZone_eq_ok_iff.mpr hzone]
    rw [hresponses]
    exact signResponses_of_none hnone _

end noVerifier

end ZoneTransfer

/-! ## Section 4: Enforcement -/

/-- A request: the handler it comes to, what the handler reads, and the message. -/
inductive ControlRequest where
  | update (handler : DynamicUpdateHandler) (env : UpdateEnvironment) (store : UpdateStore)
      (query : Bytes)
  | notify (handler : NotifyHandler) (env : NotifyEnvironment) (state : NotifyState)
      (query : Bytes)
  | axfr (transfer : ZoneTransfer) (env : TransferEnvironment) (request : TransferRequest)
      (isTcp : Bool)
  | ixfr (transfer : ZoneTransfer) (env : TransferEnvironment) (request : TransferRequest)
      (serial : Option UInt32)

namespace ControlRequest

def requireTsig : ControlRequest → Bool
  | update handler .. => handler.requireTsig
  | notify handler .. => handler.requireTsig
  | axfr transfer .. => transfer.requireTsig
  | ixfr transfer .. => transfer.requireTsig

def tsigVerifier : ControlRequest → Option TsigKeys
  | update handler .. => handler.tsigVerifier
  | notify handler .. => handler.tsigVerifier
  | axfr transfer .. => transfer.tsigVerifier
  | ixfr transfer .. => transfer.tsigVerifier

/-- A zone is changed, cache entries are invalidated, or zone data is returned. -/
def TakesEffect : ControlRequest → Prop
  | update handler env store query => handler.Writes env store query
  | notify handler env state query => handler.Invalidates env state query
  | axfr transfer env request isTcp => ∃ messages,
      transfer.handleAxfrRequestMessages env request isTcp = .ok (.ok messages) ∧ messages ≠ []
  | ixfr transfer env request serial => ∃ messages,
      transfer.handleIxfrRequestMessages env request serial = .ok (.ok messages) ∧ messages ≠ []

/-- The message carries this TSIG record. For transfers the caller has looked for it. -/
def Carries : ControlRequest → TsigParseResult → Prop
  | update _ _ _ query, tsig => DynamicUpdateHandler.updateTsig query = .ok (some tsig)
  | notify _ _ _ query, tsig => ∃ parsed, ParsedDnsQuery.parse query = .ok (.ok parsed) ∧
      parseTsigFromQuery query parsed.questionEnd = .ok (some tsig)
  | axfr _ _ request _, tsig => request.tsig = some tsig
  | ixfr _ _ request _, tsig => request.tsig = some tsig

/-- The result of `verify` for a record over the message. -/
def verifyWith (keys : TsigKeys) (tsig : TsigParseResult) : ControlRequest → Except TsigError Unit
  | update _ env _ query => (verify env.hmac env.sha256 keys env.cache env.clock query tsig).1
  | notify _ env _ query => (verify env.hmac env.sha256 keys env.replayCache env.clock query tsig).1
  | axfr _ env request _ =>
      (verify env.hmac env.sha256 keys env.cache env.clock request.message tsig).1
  | ixfr _ env request _ =>
      (verify env.hmac env.sha256 keys env.cache env.clock request.message tsig).1

/-- The message carries a TSIG record that a configured verifier passes. -/
def Verified (r : ControlRequest) : Prop :=
  ∃ keys tsig, r.tsigVerifier = some keys ∧ r.Carries tsig ∧ r.verifyWith keys tsig = .ok ()

/-- The request takes effect only if it is verified. -/
def Enforced (r : ControlRequest) : Prop := r.TakesEffect → r.Verified

/-- Nothing but the verification of its signature could stop the request. -/
def GoesThrough : ControlRequest → Prop
  | update handler env store query =>
      handler.refuses env query = none ∧ DynamicUpdateHandler.Applicable store query ∧
        ∃ tsig, DynamicUpdateHandler.updateTsig query = .ok (some tsig)
  | notify handler env state query => ∃ parsed tsig, handler.Acceptable env state query parsed ∧
      parseTsigFromQuery query parsed.questionEnd = .ok (some tsig)
  | axfr transfer env request isTcp =>
      transfer.axfrEnabled = true ∧ (transfer.tcpOnly = true → isTcp = true) ∧
        transfer.isTransferAllowed env (trimEndMatches '.' request.qname) = true ∧
        request.tsig.isSome = true ∧
        ∃ zone, env.zones.lookup (trimEndMatches '.' request.qname) = some zone ∧
          ZoneTransfer.HasRecords zone.toZone
  | ixfr transfer env request serial =>
      transfer.ixfrEnabled = true ∧
        transfer.isTransferAllowed env (trimEndMatches '.' request.qname) = true ∧
        request.tsig.isSome = true ∧
        ∃ zone, env.zones.lookup (trimEndMatches '.' request.qname) = some zone ∧
          transfer.IxfrAnswerable zone serial

/-- Which handlers ask the verifier if there is one. -/
def asksVerifier : ControlRequest → Bool
  | notify .. => false
  | _ => true

variable {r : ControlRequest}

/-- An attached verifier that is asked has passed the record. -/
theorem verified_of_asked (hrequired : r.requireTsig = true) (hasks : r.asksVerifier = true)
    (hverifier : r.tsigVerifier.isSome = true) (heffect : r.TakesEffect) : r.Verified := by
  obtain ⟨keys, hkeys⟩ := Option.isSome_iff_exists.mp hverifier
  cases r with
  | update handler env store query =>
    obtain ⟨-, -, tsig, htsig, hverify⟩ := (DynamicUpdateHandler.writes_iff hrequired).mp heffect
    exact ⟨keys, tsig, hkeys, htsig, hverify keys hkeys⟩
  | notify => cases hasks
  | axfr transfer env request isTcp =>
    obtain ⟨messages, hmessages, -⟩ := heffect
    obtain ⟨-, tsig, htsig, hverify⟩ := (ZoneTransfer.checkAccess_eq_ok_iff hrequired).mp
      (ZoneTransfer.checkAccess_of_axfr hmessages)
    exact ⟨keys, tsig, hkeys, htsig, hverify keys hkeys⟩
  | ixfr transfer env request serial =>
    obtain ⟨messages, hmessages, -⟩ := heffect
    obtain ⟨-, tsig, htsig, hverify⟩ := (ZoneTransfer.checkAccess_eq_ok_iff hrequired).mp
      (ZoneTransfer.checkAccess_of_ixfr hmessages)
    exact ⟨keys, tsig, hkeys, htsig, hverify keys hkeys⟩

/-- Where no verifier is asked, the other checks decide. -/
theorem takesEffect_iff_goesThrough (hrequired : r.requireTsig = true)
    (hunasked : r.asksVerifier = false ∨ r.tsigVerifier = none) :
    r.TakesEffect ↔ r.GoesThrough := by
  cases r with
  | update handler env store query =>
    have hnone : handler.tsigVerifier = none := hunasked.resolve_left (by simp [asksVerifier])
    refine (DynamicUpdateHandler.writes_iff hrequired).trans ?_
    refine and_congr_right fun _ => and_congr_right fun _ => exists_congr fun tsig =>
      and_iff_left fun keys hkeys => ?_
    rw [hnone] at hkeys
    cases hkeys
  | notify handler env state query => exact NotifyHandler.invalidates_iff hrequired
  | axfr transfer env request isTcp =>
    exact ZoneTransfer.axfr_of_noVerifier hrequired (hunasked.resolve_left (by simp [asksVerifier]))
  | ixfr transfer env request serial =>
    exact ZoneTransfer.ixfr_of_noVerifier hrequired (hunasked.resolve_left (by simp [asksVerifier]))

/-- **Required TSIG.** A request that only its signature could stop is stopped by a bad one exactly
    if its handler asks a verifier: one has to be attached, and for a notification, for which none
    is asked, the record has to be good by itself. -/
theorem required_tsig_enforced_iff (r : ControlRequest) (hrequired : r.requireTsig = true) :
    r.Enforced ↔
      (r.GoesThrough → if r.asksVerifier then r.tsigVerifier.isSome = true else r.Verified) := by
  cases hasks : r.asksVerifier with
  | false =>
    rw [if_neg Bool.false_ne_true, Enforced,
      takesEffect_iff_goesThrough hrequired (.inl hasks)]
  | true =>
    rw [if_pos rfl]
    cases hverifier : r.tsigVerifier with
    | some keys =>
      exact iff_of_true (verified_of_asked hrequired hasks (by rw [hverifier]; rfl)) fun _ => rfl
    | none =>
      rw [Enforced, takesEffect_iff_goesThrough hrequired (.inr hverifier)]
      refine imp_congr_right fun _ => iff_of_false ?_ (by simp)
      rintro ⟨keys, tsig, hkeys, -⟩
      rw [hverifier] at hkeys
      cases hkeys

end ControlRequest

/-! ### Requests -/

/-- A record under a key that nobody has. -/
def strayTsig : TsigParseResult where
  keyName := []
  algorithm := 161
  timeSigned := 0
  fudge := 0
  mac := []
  tsigError := 0
  otherLen := 0
  originalOffset := 23

/-- AXFR of the zone, with a TSIG record. -/
def signedAxfr (tsigVerifier : Option TsigKeys) : ControlRequest :=
  .axfr { openTransfer with requireTsig := true, tsigVerifier := tsigVerifier } smallEnvironment
    { smallRequest with tsig := some strayTsig } true

theorem signedAxfr_goesThrough (tsigVerifier : Option TsigKeys) :
    (signedAxfr tsigVerifier).GoesThrough :=
  ⟨rfl, fun _ => rfl, rfl, rfl, smallZone, rfl, .inl rfl⟩

/-- With a verifier that has no keys, the transfer is refused. -/
theorem signedAxfr_enforced :
    (signedAxfr (some .empty)).GoesThrough ∧ (signedAxfr (some .empty)).Enforced :=
  ⟨signedAxfr_goesThrough _,
    (ControlRequest.required_tsig_enforced_iff _ rfl).mpr fun _ => rfl⟩

/-- No record passes a verifier without keys. -/
theorem verify_empty_ne_ok (hmac : Hmac) (sha256 : Bytes → Bytes) (cache : ReplayCache)
    (clock : ClockReads) (message : Bytes) (tsig : TsigParseResult) :
    (verify hmac sha256 .empty cache clock message tsig).1 ≠ .ok () := by
  unfold verify
  split
  · intro h
    cases h
  · next hauthentic =>
    obtain ⟨-, -, key, hkey, -⟩ := authenticate_eq_ok_iff.mp hauthentic
    rw [KeyedTable.get_empty] at hkey
    cases hkey

/-- A NOTIFY for the zone `a` with the record behind its question. -/
def strayNotify : Bytes :=
  [0, 1, 0x20, 0, 0, 1, 0, 0, 0, 0, 0, 1] ++ [1, 97, 0, 0, 6, 0, 1] ++ [0, 250, 0, 0] ++
    0 :: [0, 161] ++ List.replicate 14 0

def cachedKey : CacheKey where
  qname := "a".toList
  qtype := 6
  qclass := 1
  dnssecOk := false
  clientSubnet := none
  transportClass := .udp512
  ns := .authoritative

/-- A handler that requires TSIG, with a verifier that has no keys. -/
def notifyHandler : NotifyHandler where
  enabled := true
  sourceAllowlist := []
  requireTsig := true
  tsigVerifier := some .empty
  minNotifyInterval := 5000000000

def notifyEnvironment : NotifyEnvironment where
  networkContains _ := false
  clientIp := .v4 ⟨[192, 0, 2, 53], rfl⟩
  zones := Table.collect [("a".toList, smallZone)]
  now := 0
  hmac _ _ _ := []
  sha256 _ := []
  replayCache := .new 0
  clock := smallEnvironment.clock

def notifyState : NotifyState where
  cache := some { DnsCache.new with entries := IndexedTable.empty.insert cachedKey ⟨[], 1, 0⟩ }
  notifyTimestamps := ∅

theorem strayNotify_invalidates :
    notifyHandler.Invalidates notifyEnvironment notifyState strayNotify := by
  refine (NotifyHandler.invalidates_iff rfl).mpr ⟨_, strayTsig, ⟨rfl, rfl, rfl, rfl, rfl, rfl, rfl,
    _, cachedKey, rfl, ?_, ?_⟩, ?_⟩
  · rw [IndexedTable.get_insert, if_pos rfl]
    rfl
  · decide
  · decide +kernel

/-- A transfer without a verifier and a notification with one: both are done on the strength of a
    record that no key is known for. -/
theorem stray_tsig_accepted :
    (signedAxfr none).requireTsig = true ∧ ¬ (signedAxfr none).Enforced ∧
    notifyHandler.requireTsig = true ∧
    ¬ (ControlRequest.notify notifyHandler notifyEnvironment notifyState strayNotify).Enforced := by
  refine ⟨rfl, fun henforced => ?_, rfl, fun henforced => ?_⟩
  · have heffect := (ControlRequest.takesEffect_iff_goesThrough (r := signedAxfr none) rfl
      (.inr rfl)).mpr (signedAxfr_goesThrough none)
    obtain ⟨keys, tsig, hkeys, -⟩ := henforced heffect
    cases hkeys
  · obtain ⟨keys, tsig, hkeys, -, hverify⟩ := henforced strayNotify_invalidates
    obtain rfl := Option.some.inj hkeys
    exact verify_empty_ne_ok _ _ _ _ _ _ hverify

end Synvoid.Dns
