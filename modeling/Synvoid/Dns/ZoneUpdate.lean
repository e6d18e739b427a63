import Synvoid.Dns.Update
import Synvoid.Dns.Zone

/-! # Updates of a zone

    Model of what `DynamicUpdateHandler::handle_update` (`update.rs`) does to
    the zone of a message: prerequisites, changes of the records, the new
    serial with the entry in the history, the check of the result and its
    storage. `Zone::increment_serial`, `Zone::get_previous_version` and
    `Zone::validate_zone_for_activation` are from `server/mod.rs`.

    The cache invalidation and the mesh synchronisation after an update are
    left out, as is the health of a zone.
-/

namespace Synvoid.Dns

open Synvoid.Framework

/-! ## Section 1: Versions of a zone -/

abbrev ZoneRecords := Table (Str × RecordType) (List DnsZoneRecord)

structure ZoneHistory where
  serial : UInt32
  records : ZoneRecords
  timestamp : UInt64

/-- A zone with its serial and its history. -/
structure VersionedZone extends Zone where
  serial : UInt32
  history : List ZoneHistory

/-- `Zone::increment_serial_rfc1982` at the time `now`, which is cut to 32 bits. -/
def incrementSerialRfc1982 (current : UInt32) (now : UInt64) : UInt32 :=
  let now := now.toUInt32
  if current < 0x80000000 ∧ now ≥ 0x80000000 then 1
  else if current = 0 then 1
  else if now > current ∧ now - current < 0x80000000 then now
  else current + 1

namespace VersionedZone

variable (zone : VersionedZone)

/-- The clock is read for the serial and again for the entry. -/
def incrementSerialWithLimit (maxHistory : Nat) (now timestamp : UInt64) : VersionedZone where
  toZone := zone.toZone
  serial := incrementSerialRfc1982 zone.serial now
  history :=
    (if zone.history.length ≥ maxHistory then zone.history.tail else zone.history) ++
      [⟨zone.serial, zone.records, timestamp⟩]

def incrementSerial (now timestamp : UInt64) : VersionedZone :=
  zone.incrementSerialWithLimit 200 now timestamp

def getPreviousVersion (serial : UInt32) : Option ZoneHistory :=
  zone.history.find? fun entry => entry.serial = serial

def withRecords (records : ZoneRecords) : VersionedZone :=
  { zone with records := records }

end VersionedZone

/-! ## Section 2: Validation -/

def RecordType.srv : RecordType := .other 33

/-- The errors that the validation of a zone reports. -/
inductive ZoneValidationError where
  | emptyOrigin (raw : Str)
  | illegalOriginCharacters (origin : Str)
  | noSoaRecord
  | multipleSoaRecords (count : Nat)
  | ownerLabelTooLong (name : Str) (len : Nat)
  | nameOutsideZone (name zone : Str)
  | unsupportedNullRecord (name : Str)
  | invalidTtl (name : Str) (ttl : UInt32)
  | mxPriorityOutOfRange (name : Str) (priority : UInt32)
  | srvPriorityOutOfRange (name : Str) (priority : UInt32)
  | soaTooFewFields (name : Str) (count : Nat)
  | invalidSoaField (name field value : Str)
  | invalidARecordAddress (name value : Str)
  | invalidAaaaRecordAddress (name value : Str)
  | cnameCoexistsWithOtherData (name : Str) (conflicting : RecordType)
  | invalidTargetName (name : Str) (recordType : RecordType) (target : Str)
  deriving DecidableEq

/-- `if !test { return Err(error); }`. -/
def require (test : Bool) (error : ZoneValidationError) : Except ZoneValidationError Unit :=
  if test then .ok () else .error error

/-- Whether `validate_target_name` is `Ok`; empty labels are passed over. -/
def validTargetName (target : Str) : Bool :=
  ((trimEndMatches '.' target).splitOn '.').all fun label => byteLen label ≤ 63

/-- `validate_soa_record_value`: seven fields, the last five of them numbers. -/
def validateSoaRecordValue (name value : Str) : Except ZoneValidationError Unit := do
  let parts := splitWhitespace value
  require (7 ≤ parts.length) (.soaTooFewFields name parts.length)
  (["serial", "refresh", "retry", "expire", "minimum"].zip (parts.drop 2)).forM fun (field, part) =>
    require (parseU32 part).isSome (.invalidSoaField name field.toList part)

/-- The name that a record of this type points to. -/
def targetOf (recordType : RecordType) (value : Str) : Option Str :=
  if recordType = .mx then some ((splitWhitespace value).getLast?.getD [])
  else if recordType = .ns ∨ recordType = .cname then some (trim value)
  else if recordType = .srv then some ((splitWhitespace value)[3]?.getD [])
  else none

/-- Types that a name with a CNAME record may not have. -/
def cnameExclusiveTypes : List RecordType :=
  [.a, .aaaa, .mx, .txt, .srv, .ptr, .ns, .soa, .caa, .tlsa, .svcb, .https, .naptr, .sshfp]

namespace Zone

variable (lib : Externals) (zone : Zone)

/-- `Zone::normalize_origin`. -/
def normalizeOrigin (origin : Str) : Str := lib.toLowercase (trimEndMatches '.' origin)

def countApexSoa : Nat :=
  (zone.records.entries.map fun ⟨(name, recordType), records⟩ =>
    if recordType = .soa ∧ (normalizeOrigin lib name = normalizeOrigin lib zone.origin ∨
      normalizeOrigin lib name = apex) then records.length else 0).sum

/-- Whether the owner of a record is the origin, a name below it or a single label. -/
def ownsName (name : Str) : Bool :=
  name = apex || name = [] || normalizeOrigin lib name = normalizeOrigin lib zone.origin ||
    ('.' :: normalizeOrigin lib zone.origin).isSuffixOf (normalizeOrigin lib name) ||
    !name.contains '.'

/-- The checks of one record under its key. -/
def validateRecord (name : Str) (recordType : RecordType) (record : DnsZoneRecord) :
    Except ZoneValidationError Unit := do
  require (validTargetName name) (.ownerLabelTooLong name (byteLen name))
  require (zone.ownsName lib name) (.nameOutsideZone name zone.origin)
  require (recordType ≠ .null) (.unsupportedNullRecord name)
  require (record.ttl ≠ 0 ∧ record.ttl ≤ 2147483647) (.invalidTtl name record.ttl)
  if recordType = .mx then
    record.priority.forM fun pri => require (pri ≤ 65535) (.mxPriorityOutOfRange name pri)
  if recordType = .srv then
    record.priority.forM fun pri => require (pri ≤ 65535) (.srvPriorityOutOfRange name pri)
  if recordType = .soa then validateSoaRecordValue name record.value
  if recordType = .a then
    require (parseIpv4 record.value).isSome (.invalidARecordAddress name record.value)
  if recordType = .aaaa then
    require (parseIpv6 record.value).isSome (.invalidAaaaRecordAddress name record.value)
  (targetOf recordType record.value).forM fun target =>
    require (validTargetName target) (.invalidTargetName name recordType target)

/-- The `Ok` of `validate_zone_for_activation`, or its first error in the order in which the
    table is read. -/
def validateZoneForActivation : Except ZoneValidationError Unit := do
  let normalized := normalizeOrigin lib zone.origin
  require (normalized ≠ []) (.emptyOrigin zone.origin)
  require ((utf8 normalized).all fun b => 0x20 < b && b ≠ '/'.toUInt8 && b ≠ '\\'.toUInt8)
    (.illegalOriginCharacters normalized)
  let count := zone.countApexSoa lib
  require (count ≠ 0) .noSoaRecord
  require (count ≤ 1) (.multipleSoaRecords count)
  zone.records.entries.forM fun ⟨(name, recordType), records⟩ =>
    records.forM (zone.validateRecord lib name recordType)
  zone.records.keys.forM fun (owner, recordType) =>
    require (!zone.records.keys.contains (owner, .cname) || recordType ∉ cnameExclusiveTypes)
      (.cnameCoexistsWithOtherData owner recordType)

end Zone

/-! ## Section 3: The changes -/

/-- `{:?}` of a byte slice. -/
def debugBytes (rdata : Bytes) : Str :=
  '[' :: [',', ' '].intercalate (rdata.map fun b => decimal b.toNat) ++ [']']

/-- The eight groups of an IPv6 address, each `{:x}`. -/
def formatGroups : Bytes → List Str
  | hi :: lo :: rest => Nat.toDigits 16 (u16FromBe hi lo).toNat :: formatGroups rest
  | _ => []

def formatRdataForRecordType (rtype : UInt16) (rdata : Bytes) : Str :=
  if RecordType.ofCode rtype = .a ∧ rdata.length = 4 then
    ['.'].intercalate (rdata.map fun b => decimal b.toNat)
  else if RecordType.ofCode rtype = .aaaa ∧ rdata.length = 16 then
    [':'].intercalate (formatGroups rdata)
  else debugBytes rdata

/-- The parts of a value between white space, with single spaces. -/
def encodeRdataNormalized (value : Str) : Bytes :=
  utf8 ([' '].intercalate (splitWhitespace value))

def checkPrerequisite (zone : Zone) (prereq : UpdatePrerequisite) : Bool :=
  let records := (zone.records.lookup (prereq.name, RecordType.ofCode prereq.rtype)).getD []
  match prereq.condition with
  | .exists_ =>
      records ≠ [] && (prereq.rdata = [] ||
        records.any fun record => encodeRdataNormalized record.value = prereq.rdata)
  | .notExists => records = []
  | .existsRRset => records ≠ []
  | .notExistsRRset => records = []

/-- The key that a change is about. -/
def UpdateRecord.key (update : UpdateRecord) : Str × RecordType :=
  (update.name, RecordType.ofCode update.rtype)

/-- The only record of the key after a change of class 1. -/
def UpdateRecord.zoneRecord (update : UpdateRecord) : DnsZoneRecord where
  name := update.name
  recordType := RecordType.ofCode update.rtype
  value := formatRdataForRecordType update.rtype update.rdata
  ttl := UInt32.ofNat update.ttl
  priority := none

/-- One change. -/
def applyRecord (records : ZoneRecords) (update : UpdateRecord) : ZoneRecords :=
  if update.rclass = 1 then records.insert update.key [update.zoneRecord]
  else if update.rclass = 2 then records.erase update.key
  else records

def applyRecords (records : ZoneRecords) (updates : List UpdateRecord) : ZoneRecords :=
  updates.foldl applyRecord records

def updateRcodeNoError : UInt8 := 0
def updateRcodeYxDomain : UInt8 := 6
def updateRcodeNotAuth : UInt8 := 9

/-- The zone after the changes, under a new serial. -/
def VersionedZone.changed (zone : VersionedZone) (updates : List UpdateRecord)
    (now timestamp : UInt64) : VersionedZone :=
  (zone.withRecords (applyRecords zone.records updates)).incrementSerial now timestamp

/-- What an update does to its zone: the zone to store, if any, and the RCODE. -/
def VersionedZone.update (lib : Externals) (zone : VersionedZone)
    (prerequisites : List UpdatePrerequisite) (updates : List UpdateRecord)
    (now timestamp : UInt64) : Option VersionedZone × UInt8 :=
  if !prerequisites.all (checkPrerequisite zone.toZone) then (none, updateRcodeYxDomain)
  else if updates = [] then (none, updateRcodeNoError)
  else
    let updated := zone.changed updates now timestamp
    match updated.validateZoneForActivation lib with
    | .error _ => (none, updateRcodeNotAuth)
    | .ok () => (some updated, updateRcodeNoError)

end Synvoid.Dns
