import Synvoid.Dns.ResponseEncoder
import Synvoid.Framework.Table

/-! # Zones

    Model of `Zone` and its lookups (`synvoid-dns/src/server/mod.rs`), of the
    trie that finds the zone of a name (`zone_trie.rs`) and of the zone store
    with its suffix index (`server/sharded_store.rs`, all shards in one table).

    Records are kept under a name relative to the origin, `@` for the origin
    itself, and a type. The serial, the history and the health of a zone are
    left out.
-/

namespace Synvoid.Dns

open Synvoid.Framework

/-! ### Record types -/

/-- The types with a constructor of their own. -/
def namedTypes : List RecordType :=
  [.a, .ns, .cname, .soa, .ptr, .mx, .txt, .aaaa, .naptr, .opt, .ds, .sshfp, .rrsig, .nsec, .dnskey,
    .nsec3, .nsec3param, .tlsa, .svcb, .https, .caa]

/-- `RecordType::from(u16)`. -/
def RecordType.ofCode (code : UInt16) : RecordType :=
  (namedTypes.find? fun recordType => recordType.code = code).getD (.other code)

def RecordType.null : RecordType := .other 10
def RecordType.cds : RecordType := .other 59
def RecordType.cdnskey : RecordType := .other 60

/-- `RecordTypeExt::UNKNOWN`. -/
def RecordType.unknown : RecordType := .null

/-- `RecordTypeExt::is_signed`. -/
def RecordType.isSigned (recordType : RecordType) : Bool :=
  recordType ∉ [.null, .dnskey, .ds, .rrsig, .nsec, .nsec3, .nsec3param, .cds, .cdnskey]

theorem RecordType.code_ofCode (code : UInt16) : (RecordType.ofCode code).code = code := by
  unfold RecordType.ofCode
  cases hfind : namedTypes.find? fun recordType => recordType.code = code with
  | none => rfl
  | some recordType => simpa using List.find?_some hfind

/-! ### Zones -/

/-- The accessors of a sealed key. -/
structure ZoneSigningKey where
  algorithm : UInt8
  flags : UInt16
  publicKey : Bytes
  keyTag : UInt16
  sign : Bytes → Option Bytes

structure Nsec3Config where
  algorithm : UInt8
  flags : UInt8
  iterations : UInt16
  salt : Bytes

structure Zone where
  origin : Str
  records : Table (Str × RecordType) (List DnsZoneRecord)
  kskKey : Option ZoneSigningKey
  zskKey : Option ZoneSigningKey
  dnskeyTtl : Option UInt32
  nsec3Enabled : Bool
  nsecEnabled : Bool
  nsec3param : Option Nsec3Config

def Zone.new (origin : Str) : Zone where
  origin := origin
  records := ∅
  kskKey := none
  zskKey := none
  dnskeyTtl := none
  nsec3Enabled := false
  nsecEnabled := false
  nsec3param := none

inductive AuthoritativeLookupOutcome where
  | positive (origin qname : Str) (qtype : UInt16) (records : List DnsZoneRecord)
  | cname (origin qname : Str) (cnameRecords : List DnsZoneRecord)
  | noData (origin qname : Str) (qtype : UInt16) (soa : Option DnsZoneRecord)
  | nxDomain (origin qname : Str) (qtype : UInt16) (soa : Option DnsZoneRecord)
  | noAuthoritativeZone (qname : Str) (qtype : UInt16)

/-- The name of the origin in a zone. -/
def apex : Str := "@".toList

namespace Zone

variable (lib : Externals) (zone : Zone)

def lowerOrigin : Str := lib.toLowercase (trimEndMatches '.' zone.origin)

def ownerExists (lookupName : Str) : Bool :=
  zone.records.keys.any fun (name, _) =>
    name == lookupName || (lookupName == apex && lib.toLowercase name == zone.lowerOrigin lib) ||
      (name == apex && lib.toLowercase lookupName == zone.lowerOrigin lib)

def getSoa : Option DnsZoneRecord :=
  ((zone.records.lookup (apex, .soa)).orElse fun _ =>
    zone.records.lookup (zone.lowerOrigin lib, .soa)).bind List.head?

def lookupAuthoritative (lookupName : Str) (qtype : UInt16) : AuthoritativeLookupOutcome :=
  match zone.records.lookup (lookupName, RecordType.ofCode qtype) with
  | some records => .positive zone.origin lookupName qtype records
  | none =>
      match zone.records.lookup (lookupName, .cname) with
      | some cnameRecords => .cname zone.origin lookupName cnameRecords
      | none =>
          if zone.ownerExists lib lookupName then
            .noData zone.origin lookupName qtype (zone.getSoa lib)
          else .nxDomain zone.origin lookupName qtype (zone.getSoa lib)

end Zone

/-! ### Finding the zone of a name -/

/-- A node is a zone if it has an origin. -/
inductive TrieNode where
  | mk (children : List (Str × TrieNode)) (zoneOrigin : Option Str)

namespace TrieNode

def empty : TrieNode := .mk [] none

def children : TrieNode → List (Str × TrieNode)
  | .mk children _ => children

def zoneOrigin : TrieNode → Option Str
  | .mk _ zoneOrigin => zoneOrigin

/-- Puts `origin` at the end of the path; a zone that is there stays. -/
def insertAt (origin : Str) : List Str → TrieNode → TrieNode
  | [], node => .mk node.children (node.zoneOrigin.orElse fun _ => some origin)
  | label :: rest, node =>
      let child := insertAt origin rest ((node.children.lookup label).getD empty)
      .mk ((label, child) :: node.children.filter (·.1 ≠ label)) node.zoneOrigin

/-- The last zone on the path. -/
def findFrom : TrieNode → List Str → Option Str → Option Str
  | _, [], bestMatch => bestMatch
  | node, label :: rest, bestMatch =>
      match node.children.lookup label with
      | none => bestMatch
      | some child => child.findFrom rest (child.zoneOrigin.orElse fun _ => bestMatch)

end TrieNode

structure ZoneTrie where
  root : TrieNode

namespace ZoneTrie

def new : ZoneTrie where
  root := .empty

/-- The labels of a name, the last one first. -/
def path (lib : Externals) (name : Str) : List Str :=
  (labels (lib.toLowercase (trimEndMatches '.' name))).reverse

def insert (lib : Externals) (trie : ZoneTrie) (origin : Str) : ZoneTrie :=
  if path lib origin = [] then trie
  else ⟨trie.root.insertAt (lib.toLowercase (trimEndMatches '.' origin)) (path lib origin)⟩

def findZone (lib : Externals) (trie : ZoneTrie) (name : Str) : Option Str :=
  trie.root.findFrom (path lib name) none

end ZoneTrie

structure ZoneStore where
  zones : Table Str Zone
  suffixIndex : Table Str Str

namespace ZoneStore

variable (lib : Externals)

def new : ZoneStore where
  zones := ∅
  suffixIndex := ∅

def insert (store : ZoneStore) (origin : Str) (zone : Zone) : ZoneStore where
  zones := store.zones.insert origin zone
  suffixIndex := store.suffixIndex.insert (lib.toLowercase (trimEndMatches '.' origin)) origin

def get (store : ZoneStore) (origin : Str) : Option Zone := store.zones.lookup origin

/-- The names at and above a name, the longest first. -/
def suffixes (qname : Str) : List Str :=
  let labels := (lib.toLowercase (trimEndMatches '.' qname)).splitOn '.'
  (labels.tails.filter (· ≠ [])).map ['.'].intercalate

def findBySuffixWithFilter (store : ZoneStore) (qname : Str) (filter : Zone → Bool) :
    Option Zone :=
  (suffixes lib qname).findSome? fun suffix => do
    let originKey ← store.suffixIndex.lookup suffix
    let zone ← store.get originKey
    if filter zone then some zone else none

def findBySuffix (store : ZoneStore) (qname : Str) : Option Zone :=
  store.findBySuffixWithFilter lib qname fun _ => true

end ZoneStore

end Synvoid.Dns
