import Synvoid.Dns.ParsedQuery
import Synvoid.Framework.IndexedTable
import Synvoid.Framework.IpAddr

/-! # The response cache

    Model of `DnsCache` (`synvoid-dns/src/cache.rs`): whole response packets
    under a `CacheKey`, an index from query names to the keys that have them,
    and the fingerprints of the packets seen under each key.

    The `moka` cache is an exact map here: it neither evicts nor expires entries
    by itself. Instants and durations are in nanoseconds, and every operation
    reads the clock once. The hash of a packet (`AHasher`) is a parameter. The
    counters and the other two fields of `CachedResponse` are left out.
-/

namespace Synvoid.Dns

open Synvoid.Framework

/-! ### Keys -/

inductive TransportClass where
  | udp512
  | udpEdns (size : UInt16)
  | tcp
  | http
  | quic
  deriving DecidableEq, Repr

/-- `format_transport_class`. -/
def TransportClass.format : TransportClass → Str
  | .udp512 => "udp512".toList
  | .udpEdns size => "udp-edns-".toList ++ decimal size.toNat
  | .tcp => "tcp".toList
  | .http => "http".toList
  | .quic => "quic".toList

inductive CacheNamespace where
  | authoritative
  | recursive
  deriving DecidableEq, Repr

def CacheNamespace.asStr : CacheNamespace → Str
  | .authoritative => "authoritative".toList
  | .recursive => "recursive".toList

structure CacheKey where
  qname : Str
  qtype : UInt16
  qclass : UInt16
  dnssecOk : Bool
  clientSubnet : Option Framework.IpAddr
  transportClass : TransportClass
  ns : CacheNamespace
  deriving DecidableEq

/-- The body of both constructors from a parsed query. -/
def CacheKey.fromParsed (ns : CacheNamespace) (parsed : ParsedDnsQuery)
    (clientIp : Framework.IpAddr) (transportClass : TransportClass) : CacheKey where
  qname := parsed.qname
  qtype := parsed.qtype
  qclass := parsed.qclass
  dnssecOk := parsed.dnssecOk
  clientSubnet := some clientIp
  transportClass := transportClass
  ns := ns

def CacheKey.fromParsedAuthoritative := CacheKey.fromParsed .authoritative

def CacheKey.fromParsedRecursive := CacheKey.fromParsed .recursive

/-- `fingerprint_key`. -/
def CacheKey.fingerprintKey (key : CacheKey) : Str :=
  ['|'].intercalate [key.qname, decimal key.qtype.toNat, decimal key.qclass.toNat,
    (if key.dnssecOk then "true" else "false").toList,
    (key.clientSubnet.map Framework.IpAddr.display).getD [], key.transportClass.format,
    key.ns.asStr]

/-! ### Configuration and state -/

/-- `Duration::from_secs`. -/
def fromSecs (secs : Nat) : Nat := secs * 1000000000

structure CacheConfig where
  /-- In seconds, as the other two durations. -/
  maxTtl : Nat
  minTtl : Nat
  maxEntrySize : Nat
  enableFingerprinting : Bool
  maxFingerprintsPerName : Nat
  maxCapacity : Nat
  serveStaleEnabled : Bool
  serveStaleMaxStale : Nat
  maxStaleCount : Nat
  confirmationThreshold : Nat

/-- The configuration of `DnsCache::new`. -/
def CacheConfig.new (capacity maxTtlSecs minTtlSecs : Nat) : CacheConfig where
  maxTtl := maxTtlSecs
  minTtl := minTtlSecs
  maxEntrySize := 65535
  enableFingerprinting := true
  maxFingerprintsPerName := 10
  maxCapacity := capacity
  serveStaleEnabled := false
  serveStaleMaxStale := 86400
  maxStaleCount := 100
  confirmationThreshold := 3

structure CachedResponse where
  data : Bytes
  ttl : Nat
  cachedAt : Nat
  deriving DecidableEq

/-- The fingerprints of one key, each with the time it was seen. -/
abbrev Sightings := List (UInt64 × Nat)

structure DnsCache where
  /-- `cache` and `qname_index`. -/
  entries : IndexedTable CachedResponse CacheKey.qname
  cacheFingerprints : Table Str Sightings
  staleServedCount : Nat

inductive CachePoisoningError where
  | entryTooLarge (size max : Nat)
  | fingerprintMismatch (qname : Str) (expected : List UInt64) (actual : UInt64)
  | potentialPoisoning (qname : Str) (newFingerprint : UInt64)
  deriving DecidableEq, Repr

namespace DnsCache

def new : DnsCache where
  entries := .empty
  cacheFingerprints := ∅
  staleServedCount := 0

variable (cfg : CacheConfig) (computeFingerprint : Bytes → UInt64)

/-! ### Insertion -/

/-- How often the most frequent fingerprint was seen. -/
def confirmations (fingerprints : List UInt64) : Nat :=
  (fingerprints.map fun fp => fingerprints.count fp).foldl max 0

def validateResponse (cache : DnsCache) (key : CacheKey) (data : Bytes) :
    Except CachePoisoningError Unit :=
  if data.length > cfg.maxEntrySize then .error (.entryTooLarge data.length cfg.maxEntrySize)
  else if cfg.enableFingerprinting then
    let fingerprint := computeFingerprint data
    match cache.cacheFingerprints.lookup key.fingerprintKey with
    | none => .ok ()
    | some existing =>
        let fps := existing.map Prod.fst
        if fps.dedup.length ≥ cfg.maxFingerprintsPerName then
          if fingerprint ∉ fps then .error (.fingerprintMismatch key.qname fps fingerprint)
          else .ok ()
        else if existing ≠ [] ∧ fingerprint ∉ fps then
          if confirmations fps < cfg.confirmationThreshold then
            .error (.potentialPoisoning key.qname fingerprint)
          else .ok ()
        else .ok ()
  else .ok ()

/-- The sightings after one more, without those older than an hour. -/
def sighted (now : Nat) (fingerprint : UInt64) (entry : Sightings) : Sightings :=
  let recent := entry.filter fun (_, ts) => now - ts < fromSecs 3600
  let fps := recent.map Prod.fst
  if fingerprint ∉ fps ∧ fps.dedup.length ≥ cfg.maxFingerprintsPerName then recent
  else if fps.count fingerprint < max cfg.confirmationThreshold 1 then
    recent ++ [(fingerprint, now)]
  else recent

def recordFingerprint (cache : DnsCache) (now : Nat) (key : CacheKey) (data : Bytes) : DnsCache :=
  if cfg.enableFingerprinting then
    let entry := (cache.cacheFingerprints.lookup key.fingerprintKey).getD []
    { cache with
      cacheFingerprints := cache.cacheFingerprints.insert key.fingerprintKey
        (sighted cfg now (computeFingerprint data) entry) }
  else cache

/-- The lifetime of an entry, in seconds. -/
def ttlSecs (recordTtl : UInt32) : Nat := max (min recordTtl.toNat cfg.maxTtl) cfg.minTtl

/-- Drops empty lists from an index that is much larger than the cache. -/
def cleanup (entries : IndexedTable CachedResponse CacheKey.qname) :
    IndexedTable CachedResponse CacheKey.qname :=
  if entries.index.entries.length > cfg.maxCapacity * 2 then entries.pruneEmpty else entries

def insert (cache : DnsCache) (now : Nat) (key : CacheKey) (data : Bytes) (recordTtl : UInt32) :
    DnsCache :=
  match validateResponse cfg computeFingerprint cache key data with
  | .error _ => cache
  | .ok () =>
      let cache := recordFingerprint cfg computeFingerprint cache now key data
      let ttl := ttlSecs cfg recordTtl
      if ttl = 0 then cache
      else
        { cache with
          entries := cleanup cfg
            (cache.entries.insert key { data, ttl := fromSecs ttl, cachedAt := now })
          staleServedCount := 0 }

/-! ### Lookup -/

/-- What a lookup returns, and whether it is stale. -/
def getWithMetadata (cache : DnsCache) (now : Nat) (key : CacheKey) :
    Option (Bytes × Bool) × DnsCache :=
  match cache.entries.get key with
  | none => (none, cache)
  | some cached =>
      let age := now - cached.cachedAt
      if age < cached.ttl then (some (cached.data, false), cache)
      else if cfg.serveStaleEnabled ∧ age < cached.ttl + fromSecs cfg.serveStaleMaxStale then
        -- `try_acquire_stale_slot`
        if cache.staleServedCount ≥ cfg.maxStaleCount then (none, cache)
        else
          (some (cached.data, true), { cache with staleServedCount := cache.staleServedCount + 1 })
      else (none, { cache with entries := cache.entries.remove key })

/-- `get` has the same body and returns the packet alone. -/
def get (cache : DnsCache) (now : Nat) (key : CacheKey) : Option Bytes × DnsCache :=
  let (result, cache) := getWithMetadata cfg cache now key
  (result.map Prod.fst, cache)

/-! ### Invalidation -/

/-- The test of `invalidate_zone` for a name of the index. -/
def dominated (origin qname : Str) : Bool :=
  qname == origin || ('.' :: origin).isSuffixOf qname

def invalidateZone (cache : DnsCache) (origin : Str) : DnsCache :=
  { cache with
    entries := cache.entries.invalidateGroups (dominated origin)
    cacheFingerprints := cache.cacheFingerprints.traverse fun name sightings =>
      if dominated origin (name.takeWhile (· ≠ '|')) then none else some sightings }

end DnsCache

end Synvoid.Dns
