import Mathlib.Data.Char
import Mathlib.Data.List.Lex
import Synvoid.Dns.Zone
import Synvoid.Dns.CanonicalRdata

/-! # Records a signed zone makes up

    Model of `synvoid-dns/src/server/dnssec_impl.rs` and of the functions of
    `dnssec_signing.rs` and `dnssec_validation.rs` it calls: key records from
    the keys of a zone, NSEC and NSEC3 records for a denial, and the signature
    of a record.

    Hash functions and the private key's `sign` are parameters, and so is the
    clock.
-/

namespace Synvoid.Dns

open Synvoid.Framework

structure Hashes where
  sha1 : Bytes → Bytes
  sha256 : Bytes → Bytes

/-- `hex::encode`. -/
def encodeHex (bytes : Bytes) : Str :=
  bytes.flatMap fun byte => [Nat.digitChar (byte.toNat / 16), Nat.digitChar (byte.toNat % 16)]

/-- A record of the zone's own making, with the RDATA in hexadecimal digits. -/
def madeRecord (name : Str) (recordType : RecordType) (rdata : Bytes) (ttl : UInt32) :
    DnsZoneRecord where
  name := name
  recordType := recordType
  value := encodeHex rdata
  ttl := ttl
  priority := none

/-! ### Keys -/

/-- `compute_dnskey`, and the canonical form of the key for its digest. -/
def computeDnskey (key : ZoneSigningKey) : Bytes :=
  u16ToBe key.flags ++ [3, key.algorithm] ++ key.publicKey

inductive DsDigestType where
  | sha1
  | sha256
  deriving DecidableEq, Repr

def DsDigestType.toU8 : DsDigestType → UInt8
  | .sha1 => 1
  | .sha256 => 2

def createDsRecord (hashes : Hashes) (key : ZoneSigningKey) (digestType : DsDigestType) : Bytes :=
  u16ToBe key.keyTag ++ [key.algorithm, digestType.toU8] ++
    match digestType with
    | .sha1 => hashes.sha1 (computeDnskey key)
    | .sha256 => hashes.sha256 (computeDnskey key)

def Zone.keyTtl (zone : Zone) : UInt32 := zone.dnskeyTtl.getD 3600

def buildDnskeyRecords (zone : Zone) : List DnsZoneRecord :=
  (zone.kskKey.toList ++ zone.zskKey.toList).map fun key =>
    madeRecord apex .dnskey (computeDnskey key) zone.keyTtl

def buildDsRecords (hashes : Hashes) (ksk : ZoneSigningKey) : List DnsZoneRecord :=
  [madeRecord apex .ds (createDsRecord hashes ksk .sha256) 3600]

def buildCdsRecords (hashes : Hashes) (ksk : ZoneSigningKey) : List DnsZoneRecord :=
  [madeRecord apex .cds (createDsRecord hashes ksk .sha256) 3600,
    madeRecord apex .cds (createDsRecord hashes ksk .sha1) 3600]

def buildCdnskeyRecords (zone : Zone) : List DnsZoneRecord :=
  zone.kskKey.toList.map fun key => madeRecord apex .cdnskey (computeDnskey key) zone.keyTtl

/-- The parameters at the front of an NSEC3 and an NSEC3PARAM record. -/
def createNsec3paramRecord (config : Nsec3Config) : Bytes :=
  [config.algorithm, config.flags] ++ u16ToBe config.iterations ++
    [UInt8.ofNat config.salt.length] ++ config.salt

def buildNsec3paramRecord (zone : Zone) : Option DnsZoneRecord :=
  zone.nsec3param.map fun config =>
    madeRecord apex .nsec3param (createNsec3paramRecord config) zone.keyTtl

/-! ### Type bitmaps -/

/-- The blocks that are finished, the current window and its bits. -/
structure BitmapState where
  blocks : List (UInt8 × List UInt8)
  window : UInt8
  bits : List UInt8

/-- The bit of one type. The window only moves when bits are pending. -/
def BitmapState.add (s : BitmapState) (rt : UInt16) : BitmapState :=
  let window := (rt / 256).toUInt8
  let byteIndex := (rt.toNat % 256) / 8
  let mask : UInt8 := 1 <<< (7 - rt.toUInt8 % 8)
  let s :=
    if window ≠ s.window ∧ s.bits ≠ [] then
      { blocks := s.blocks ++ [(s.window, s.bits)], window, bits := [] }
    else s
  let padded := s.bits ++ List.replicate (byteIndex + 1 - s.bits.length) 0
  { s with bits := padded.modify byteIndex (· ||| mask) }

def buildTypeBitmap (typeCodes : List UInt16) : List (UInt8 × List UInt8) :=
  let s := typeCodes.foldl BitmapState.add { blocks := [], window := 0, bits := [] }
  let bits := s.bits.rdropWhile (· == 0)
  if bits = [] then s.blocks else s.blocks ++ [(s.window, bits)]

def encodeTypeBitmap (typeCodes : List UInt16) : Bytes :=
  (buildTypeBitmap typeCodes).flatMap fun (window, bits) =>
    [window, UInt8.ofNat bits.length] ++ bits

/-! ### NSEC -/

def createNsecRecord (nextName : Str) (typeBitmap : List UInt16) : Bytes :=
  encodeLabels ((trimEndMatches '.' nextName).splitOn '.') ++ [0] ++ encodeTypeBitmap typeBitmap

/-- A relative name with the origin behind it. -/
def fullName (origin name : Str) : Str :=
  if name = apex ∨ name = [] then origin else name ++ '.' :: origin

/-- The name behind the first one that is `current`. -/
def nameAfter (lib : Externals) (current : Str) : List Str → Option Str
  | [] => none
  | name :: rest =>
      if lib.toLowercase name = current then
        rest.find? fun next => lib.toLowercase next ≠ current
      else nameAfter lib current rest

def findNextNameInZone (lib : Externals) (zone : Zone) (currentName : Str) : Option Str :=
  let origin := zone.lowerOrigin lib
  let allNames := ((zone.records.keys.map fun (name, _) => fullName origin name).filter
    (· ≠ [])).dedup.insertionSort (· ≤ ·)
  (nameAfter lib (trimEndMatches '.' (lib.toLowercase currentName)) allNames).orElse fun _ =>
    allNames.head?

/-- The types a denial of `qtype` adds. -/
def nsecTypes (qtype : RecordType) : List UInt16 :=
  match qtype with
  | .a | .aaaa => [28]
  | .mx => [15]
  | .txt => [16]
  | .other 33 => [33]
  | .cname => [5]
  | .ns => [2]
  | .soa => [6]
  | _ => []

/-- A name as it is compared: in lower case and without a dot at its end. -/
def queryName (lib : Externals) (name : Str) : Str := trimEndMatches '.' (lib.toLowercase name)

/-- The arguments of the NSEC record that `build_nsec_records` makes. -/
structure NsecParts where
  owner : Str
  nextName : Str
  types : List UInt16

def nsecParts (lib : Externals) (zone : Zone) (qname : Str) (qtype : RecordType) : NsecParts where
  owner := queryName lib qname
  nextName := (findNextNameInZone lib zone (queryName lib qname)).getD (zone.lowerOrigin lib)
  types :=
    if queryName lib qname = zone.lowerOrigin lib ∨
        ('.' :: zone.lowerOrigin lib) <:+ queryName lib qname then
      [1, 2, 5, 6, 15, 16, 28, 33]
    else [1, 2, 5, 6] ++ nsecTypes qtype

def buildNsecRecords (lib : Externals) (zone : Zone) (qname : Str) (qtype : RecordType) :
    List DnsZoneRecord :=
  let parts := nsecParts lib zone qname qtype
  [madeRecord parts.owner .nsec (createNsecRecord parts.nextName parts.types) zone.keyTtl]

/-! ### NSEC3 -/

/-- One more hash; an unknown algorithm is taken for SHA-1. -/
def nsec3Hash (hashes : Hashes) (config : Nsec3Config) : Bytes → Bytes :=
  if config.algorithm = 2 then hashes.sha256 else hashes.sha1

def hashNameNsec3 (lib : Externals) (hashes : Hashes) (name : Str) (config : Nsec3Config) :
    Bytes :=
  let nameLower := lib.toLowercase name
  let rooted := (if nameLower.getLast? = some '.' then nameLower.dropLast else nameLower) ++ ['.']
  (nsec3Hash hashes config)^[config.iterations.toNat] (utf8 rooted ++ config.salt)

def base32Alphabet : Str := "0123456789ABCDEFGHIJKLMNOPQRSTUV".toList

def base32Digit (n : UInt64) : Char := base32Alphabet.getD (n &&& 0x1F).toNat '0'

/-- Takes digits off the front of the low `bits` bits of a buffer, and leaves
    fewer than five. -/
def base32Drain (buffer : UInt64) : Nat → Str × Nat
  | bits + 5 =>
    let (digits, bitsLeft) := base32Drain buffer bits
    (base32Digit (buffer >>> UInt64.ofNat bits) :: digits, bitsLeft)
  | bits => ([], bits)

/-- The buffer is never cleared: its old bits go out at the high end. -/
def base32Step : Str × UInt64 × Nat → UInt8 → Str × UInt64 × Nat
  | (text, buffer, bits), byte =>
    let buffer := buffer <<< 8 ||| byte.toUInt64
    let (digits, bitsLeft) := base32Drain buffer (bits + 8)
    (text ++ digits, buffer, bitsLeft)

def base32Encode (input : Bytes) : Str :=
  let (text, buffer, bits) := input.foldl base32Step ([], 0, 0)
  if bits > 0 then text ++ [base32Digit (buffer <<< UInt64.ofNat (5 - bits))] else text

def createNsec3OwnerName (baseName : Str) (hash : Bytes) : Str :=
  let hashB32 := base32Encode hash
  ['.'].intercalate [decimal hashB32.length, hashB32, baseName]

def createNsec3Record (lib : Externals) (hashes : Hashes) (nextName : Str) (config : Nsec3Config)
    (typeBitmap : List UInt16) : Bytes :=
  let nextHash := hashNameNsec3 lib hashes nextName config
  createNsec3paramRecord config ++ [UInt8.ofNat nextHash.length] ++ nextHash ++
    encodeTypeBitmap typeBitmap

/-- The part before the last dot. -/
def beforeLastDot (name : Str) : Option Str :=
  (splitOnce '.' name.reverse).map fun (_, rest) => rest.reverse

/-- The loop for the closest encloser. It takes labels off the end of the name
    and puts the origin behind the rest. -/
def closestEncloserLoop (lib : Externals) (zone : Zone) (zoneOrigin : Str) : Nat → Str → Str
  | 0, _ => zoneOrigin
  | fuel + 1, current =>
      match beforeLastDot current with
      | none => zoneOrigin
      | some front =>
          let checkName := if front = [] then zoneOrigin else front ++ '.' :: zoneOrigin
          let keyExists := zone.records.keys.any fun (name, rt) =>
            lib.toLowercase (fullName zoneOrigin name) == lib.toLowercase checkName && rt.isSigned
          if keyExists then checkName else closestEncloserLoop lib zone zoneOrigin fuel front

/-- `trim_end_matches` with a text. -/
def trimEndText (pattern : Str) : Nat → Str → Str
  | 0, s => s
  | fuel + 1, s =>
      if pattern ≠ [] ∧ pattern <:+ s then
        trimEndText pattern fuel (s.take (s.length - pattern.length))
      else s

/-- The types of an NSEC3 record of the zone's own names. -/
def nsec3ApexTypes : List UInt16 := [1, 2, 5, 6, 16, 28, 33]

section nsec3
variable (lib : Externals) (hashes : Hashes) (zone : Zone) (config : Nsec3Config)

/-- The hashed owner name of a name, with the origin as it is written. -/
def nsec3Owner (name : Str) : Str :=
  createNsec3OwnerName (trimEndMatches '.' zone.origin) (hashNameNsec3 lib hashes name config)

def nsec3Record (owner next : Str) (types : List UInt16) : DnsZoneRecord :=
  madeRecord owner .nsec3 (createNsec3Record lib hashes next config types) zone.keyTtl

/-- Whether the zone has an SOA record under `@`. -/
def hasApexSoa : Bool := ((zone.records.lookup (apex, .soa)).getD []) ≠ []

def buildNsec3Records (qname : Str) : List DnsZoneRecord :=
  match zone.nsec3param with
  | none => []
  | some config =>
      let zoneOrigin := trimEndMatches '.' zone.origin
      let qnameLower := lib.toLowercase qname
      let closestEncloser :=
        closestEncloserLoop lib zone zoneOrigin (qnameLower.length + 1) qnameLower
      let nextCloserName := trimEndText closestEncloser (qnameLower.length + 1) qnameLower
      let nextCloser :=
        if nextCloserName = [] ∨ nextCloserName = ".".toList then qnameLower
        else nextCloserName.dropWhile (· == '.')
      let closest := nsec3Owner lib hashes zone config closestEncloser
      let wildcard := nsec3Owner lib hashes zone config ("*.".toList ++ closestEncloser)
      let next := nsec3Owner lib hashes zone config nextCloser
      let soa := nsec3Owner lib hashes zone config zoneOrigin
      [nsec3Record lib hashes zone config wildcard next nsec3ApexTypes,
        nsec3Record lib hashes zone config closest wildcard nsec3ApexTypes,
        nsec3Record lib hashes zone config next closest []] ++
        (if hasApexSoa zone then [nsec3Record lib hashes zone config soa closest nsec3ApexTypes]
          else [])

/-- The types the NSEC3 record of a name without the type lists. -/
def nsec3NodataTypes (qtype : RecordType) : List UInt16 :=
  match qtype with
  | .a => [28]
  | .aaaa => [1]
  | .mx => [15]
  | .txt => [16]
  | .other 33 => [33]
  | _ => []

def buildNsec3Nodata (qname : Str) (qtype : RecordType) : List DnsZoneRecord :=
  match zone.nsec3param with
  | none => []
  | some config =>
      let zoneOrigin := trimEndMatches '.' zone.origin
      let owner := nsec3Owner lib hashes zone config qname
      let soa := nsec3Owner lib hashes zone config zoneOrigin
      let wildcard := nsec3Owner lib hashes zone config ("*.".toList ++ zoneOrigin)
      [nsec3Record lib hashes zone config owner (if owner = soa then wildcard else soa)
        ([1, 2, 5, 6] ++ nsec3NodataTypes qtype)] ++
        (if hasApexSoa zone then
          [nsec3Record lib hashes zone config soa (if soa = owner then wildcard else owner)
            nsec3ApexTypes]
          else [])

end nsec3

/-- Whether the zone has the name of the query but not the type. The name is
    taken as it is spelled in the query. -/
def isNodata (zone : Zone) (qname : Str) (qtype : RecordType) : Bool :=
  let zoneOrigin := trimEndMatches '.' zone.origin
  if zoneOrigin <:+ qname ∨ qname = zoneOrigin then
    let lookupName :=
      if qname = zoneOrigin then apex
      else if ('.' :: zoneOrigin) <:+ qname then qname.take (qname.length - zoneOrigin.length - 1)
      else qname
    let nameExists := zone.records.keys.any fun (name, _) => name == lookupName
    let typeExists := zone.records.keys.any fun (name, rt) => name == lookupName && rt == qtype
    nameExists && !typeExists
  else false

/-! ### Signatures -/

/-- `count_labels`. -/
def countLabels (name : Str) : UInt8 :=
  let name := trimEndMatches '.' name
  if name = [] then 1 else UInt8.ofNat (name.splitOn '.').length

/-- The message of which `create_signed_rrsig` takes the signature. -/
def canonicalMessage (lib : Externals) (record : DnsZoneRecord) : Bytes :=
  let rdata := signedRdata lib record
  encodeLabels (labels (trimEndMatches '.' (lib.toLowercase record.name))) ++ [0] ++
    u16ToBe record.recordType.code ++ u16ToBe 1 ++ u32ToBe record.ttl ++
    u16ToBe (UInt16.ofNat rdata.length) ++ rdata

/-- The RDATA of a signature made at second `now`; empty if signing fails. -/
def createSignedRrsig (lib : Externals) (now : Nat) (record : DnsZoneRecord) (signerName : Str)
    (key : ZoneSigningKey) : Bytes :=
  match key.sign (canonicalMessage lib record) with
  | none => []
  | some signature =>
      u16ToBe record.recordType.code ++ [key.algorithm, countLabels record.name] ++
        u32ToBe record.ttl ++ u32ToBe (UInt32.ofNat (now + 7 * 86400)) ++
        u32ToBe (UInt32.ofNat (now - 86400)) ++ u16ToBe key.keyTag ++
        encodeLabels (labels (trimEndMatches '.' signerName)) ++ [0] ++ signature

/-- The signature as a record, if there is one. -/
def rrsigRecord (lib : Externals) (now : Nat) (signerName : Str) (key : ZoneSigningKey)
    (record : DnsZoneRecord) : Option DnsZoneRecord :=
  let rrsig := createSignedRrsig lib now record signerName key
  if rrsig = [] then none else some (madeRecord record.name .rrsig rrsig record.ttl)

end Synvoid.Dns
