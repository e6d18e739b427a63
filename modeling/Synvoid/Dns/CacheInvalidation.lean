import Synvoid.Dns.Cache
import Synvoid.Framework.DnsName

/-! # Invalidating a zone

    After `invalidate_zone(origin)` no lookup of a name at or below `origin`
    should return what was inserted before. The index is complete in every run
    (it is part of `IndexedTable`), so the outcome depends on the test by which
    `invalidate_zone` chooses names of the index. That test compares the names
    letter for letter, and keys keep the letter case of the query:
    `invalidation_complete_iff`.
-/

namespace Synvoid.Dns

open Synvoid.Framework

/-! ### Names

    DNS compares names label by label without regard to letter case, and a dot
    at the end stands for the root. -/

def dnsLabels (name : Str) : List Str := (labels name).map (·.map Char.toLower)

/-- `name` is `origin` or a name below it. -/
def AtOrBelow (name origin : Str) : Prop := dnsLabels origin <:+ dnsLabels name

instance (name origin : Str) : Decidable (AtOrBelow name origin) :=
  inferInstanceAs (Decidable (dnsLabels origin <:+ dnsLabels name))

/-! ### Runs -/

/-- A query for which a key is built. -/
structure CacheQuery where
  ns : CacheNamespace
  parsed : ParsedDnsQuery
  clientIp : Framework.IpAddr
  transportClass : TransportClass

def CacheQuery.key (query : CacheQuery) : CacheKey :=
  match query.ns with
  | .authoritative =>
      CacheKey.fromParsedAuthoritative query.parsed query.clientIp query.transportClass
  | .recursive => CacheKey.fromParsedRecursive query.parsed query.clientIp query.transportClass

theorem CacheQuery.qname_key (query : CacheQuery) : query.key.qname = query.parsed.qname := by
  unfold CacheQuery.key
  cases query.ns <;> rfl

inductive CacheOp where
  | insert (query : CacheQuery) (data : Bytes) (recordTtl : UInt32)
  | get (query : CacheQuery)
  | getWithMetadata (query : CacheQuery)
  | invalidateZone (origin : Str)

namespace DnsCache

variable (cfg : CacheConfig) (computeFingerprint : Bytes → UInt64)

/-- An operation at a point in time. -/
def apply (cache : DnsCache) : Nat × CacheOp → DnsCache
  | (now, .insert query data recordTtl) =>
      cache.insert cfg computeFingerprint now query.key data recordTtl
  | (now, .get query) => (cache.get cfg now query.key).2
  | (now, .getWithMetadata query) => (cache.getWithMetadata cfg now query.key).2
  | (_, .invalidateZone origin) => cache.invalidateZone origin

def run (cache : DnsCache) (ops : List (Nat × CacheOp)) : DnsCache :=
  ops.foldl (apply cfg computeFingerprint) cache

/-- A lookup of `key` returns `data`, fresh or stale. -/
def Returns (cache : DnsCache) (now : Nat) (key : CacheKey) (data : Bytes) : Prop :=
  (cache.get cfg now key).1 = some data ∨
    ∃ stale, (cache.getWithMetadata cfg now key).1 = some (data, stale)

/-- `data` is inserted under `key` by one of the operations. -/
def InsertedIn (ops : List (Nat × CacheOp)) (key : CacheKey) (data : Bytes) : Prop :=
  ∃ now query recordTtl, (now, .insert query data recordTtl) ∈ ops ∧ query.key = key

/-- Whatever was done before `origin` was invalidated, and whatever is done
    afterwards: a lookup of `key` returns only data inserted afterwards. -/
def InvalidationComplete (origin : Str) (key : CacheKey) : Prop :=
  ∀ (before after : List (Nat × CacheOp)) (now : Nat) (data : Bytes),
    Returns cfg (run cfg computeFingerprint
      ((run cfg computeFingerprint new before).invalidateZone origin) after) now key data →
    InsertedIn after key data

/-- Some lifetime is not zero, so that anything is stored at all. -/
def Stores (cfg : CacheConfig) : Prop := 0 < cfg.maxTtl ∨ 0 < cfg.minTtl

variable {cfg computeFingerprint} {cache : DnsCache} {now : Nat} {key k : CacheKey}
  {cached : CachedResponse} {data : Bytes} {recordTtl : UInt32}

/-! ### What one operation does to an entry -/

theorem get_cleanup (entries : IndexedTable CachedResponse CacheKey.qname) :
    (cleanup cfg entries).get k = entries.get k := by
  unfold cleanup
  split
  · rw [IndexedTable.get_pruneEmpty]
  · rfl

theorem entries_recordFingerprint :
    (recordFingerprint cfg computeFingerprint cache now key data).entries = cache.entries := by
  unfold recordFingerprint
  split <;> rfl

theorem stores_of_ttlSecs (h : ttlSecs cfg recordTtl ≠ 0) : Stores cfg := by
  unfold ttlSecs at h
  unfold Stores
  omega

theorem entries_insert
    (h : (cache.insert cfg computeFingerprint now key data recordTtl).entries.get k = some cached) :
    cache.entries.get k = some cached ∨ Stores cfg ∧ key = k ∧ cached.data = data := by
  unfold insert at h
  split at h
  · exact .inl h
  · simp only at h
    split at h
    · rw [entries_recordFingerprint] at h
      exact .inl h
    · next httl =>
      rw [get_cleanup, IndexedTable.get_insert, entries_recordFingerprint] at h
      split at h
      · next hk =>
        obtain rfl := Option.some.inj h
        exact .inr ⟨stores_of_ttlSecs httl, hk.symm, rfl⟩
      · exact .inl h

theorem entries_getWithMetadata
    (h : (cache.getWithMetadata cfg now key).2.entries.get k = some cached) :
    cache.entries.get k = some cached := by
  unfold getWithMetadata at h
  split at h
  · exact h
  · simp only at h
    split at h
    · exact h
    · split at h
      · split at h <;> exact h
      · -- an entry that is too old is removed
        rw [IndexedTable.get_remove] at h
        split at h
        · cases h
        · exact h

theorem get_invalidateZone (origin : Str) :
    (cache.invalidateZone origin).entries.get k =
      if dominated origin k.qname then none else cache.entries.get k :=
  IndexedTable.get_invalidateGroups cache.entries (dominated origin) k

/-- An entry after an operation was there before, or the operation inserted it. -/
theorem entries_apply {op : Nat × CacheOp}
    (h : (apply cfg computeFingerprint cache op).entries.get k = some cached) :
    cache.entries.get k = some cached ∨ Stores cfg ∧ InsertedIn [op] k cached.data := by
  obtain ⟨now, op⟩ := op
  cases op with
  | insert query data recordTtl =>
    rcases entries_insert h with hold | ⟨hstores, hkey, rfl⟩
    · exact .inl hold
    · exact .inr ⟨hstores, now, query, recordTtl, by simp, hkey⟩
  | get query => exact .inl (entries_getWithMetadata h)
  | getWithMetadata query => exact .inl (entries_getWithMetadata h)
  | invalidateZone origin =>
    rw [apply, get_invalidateZone] at h
    split at h
    · cases h
    · exact .inl h

theorem InsertedIn.mono {ops ops' : List (Nat × CacheOp)} (hops : ops ⊆ ops')
    (h : InsertedIn ops k data) : InsertedIn ops' k data := by
  obtain ⟨now, query, recordTtl, hmem, hkey⟩ := h
  exact ⟨now, query, recordTtl, hops hmem, hkey⟩

/-- The same for a run. -/
theorem entries_run {ops : List (Nat × CacheOp)}
    (h : (run cfg computeFingerprint cache ops).entries.get k = some cached) :
    cache.entries.get k = some cached ∨ Stores cfg ∧ InsertedIn ops k cached.data := by
  induction ops generalizing cache with
  | nil => exact .inl h
  | cons op ops ih =>
    rcases ih h with hfirst | ⟨hstores, hlater⟩
    · rcases entries_apply hfirst with hold | ⟨hstores, hnow⟩
      · exact .inl hold
      · exact .inr ⟨hstores, hnow.mono (by simp)⟩
    · exact .inr ⟨hstores, hlater.mono (List.subset_cons_self op ops)⟩

theorem entry_of_getWithMetadata {stale : Bool}
    (h : (cache.getWithMetadata cfg now key).1 = some (data, stale)) :
    ∃ cached, cache.entries.get key = some cached ∧ cached.data = data := by
  unfold getWithMetadata at h
  split at h
  · cases h
  · next cached hcached =>
    refine ⟨cached, hcached, ?_⟩
    simp only at h
    split at h
    · cases h
      rfl
    · split at h
      · split at h
        · cases h
        · cases h
          rfl
      · cases h

theorem entry_of_returns (h : Returns cfg cache now key data) :
    ∃ cached, cache.entries.get key = some cached ∧ cached.data = data := by
  rcases h with hget | ⟨stale, hmeta⟩
  · obtain ⟨⟨data', stale⟩, hmeta, rfl⟩ := Option.map_eq_some_iff.mp hget
    exact entry_of_getWithMetadata hmeta
  · exact entry_of_getWithMetadata hmeta

/-! ### When the test finds the name -/

theorem invalidationComplete_of_dominated {origin : Str}
    (h : Stores cfg → dominated origin key.qname = true) :
    InvalidationComplete cfg computeFingerprint origin key := by
  intro before after now data hreturns
  obtain ⟨cached, hcached, rfl⟩ := entry_of_returns hreturns
  rcases entries_run hcached with hsurvived | ⟨-, hinserted⟩
  · rw [get_invalidateZone] at hsurvived
    split at hsurvived
    · cases hsurvived
    · next hnot =>
      -- what survives was inserted before, so something is stored
      rcases entries_run hsurvived with hnew | ⟨hstores, -⟩
      · rw [new, IndexedTable.get_empty] at hnew
        cases hnew
      · exact absurd (h hstores) hnot
  · exact hinserted

/-! ### When it does not -/

/-- A packet inserted into an empty cache with the longest lifetime. -/
theorem get_insert_new (computeFingerprint : Bytes → UInt64) (now : Nat) (key : CacheKey)
    (hstores : Stores cfg) :
    ∃ cached, (new.insert cfg computeFingerprint now key [] 0xFFFFFFFF).entries.get key =
      some cached ∧ cached.data = [] ∧ cached.cachedAt = now ∧ 0 < cached.ttl := by
  have hvalid : validateResponse cfg computeFingerprint new key [] = .ok () := by
    have hlookup : new.cacheFingerprints.lookup key.fingerprintKey = none := AList.lookup_empty _
    unfold validateResponse
    simp [hlookup]
  have httl : ttlSecs cfg 0xFFFFFFFF ≠ 0 := by
    unfold Stores at hstores
    unfold ttlSecs
    have hmax : (0xFFFFFFFF : UInt32).toNat = 4294967295 := rfl
    omega
  refine ⟨{ data := [], ttl := fromSecs (ttlSecs cfg 0xFFFFFFFF), cachedAt := now }, ?_, rfl, rfl,
    ?_⟩
  · unfold insert
    rw [hvalid]
    simp only
    rw [if_neg httl, get_cleanup, IndexedTable.get_insert, if_pos rfl]
  · unfold fromSecs
    simp only
    omega

theorem returns_of_entry (hcached : cache.entries.get key = some cached)
    (hfresh : now - cached.cachedAt < cached.ttl) : Returns cfg cache now key cached.data := by
  refine .inr ⟨false, ?_⟩
  unfold getWithMetadata
  rw [hcached]
  simp only
  rw [if_pos hfresh]

theorem not_invalidationComplete {origin : Str} {query : CacheQuery} (hstores : Stores cfg)
    (hnot : dominated origin query.key.qname = false) :
    ¬ InvalidationComplete cfg computeFingerprint origin query.key := by
  intro hcomplete
  obtain ⟨cached, hcached, hdata, hat, httl⟩ :=
    get_insert_new computeFingerprint 0 query.key hstores
  -- the entry is inserted, survives the invalidation and is looked up at once
  have hsurvives : ((run cfg computeFingerprint new
      [(0, .insert query [] 0xFFFFFFFF)]).invalidateZone origin).entries.get query.key =
        some cached := by
    rw [get_invalidateZone, hnot]
    exact hcached
  have hreturns : Returns cfg _ 0 query.key cached.data :=
    returns_of_entry hsurvives (by omega)
  obtain ⟨_, _, _, hmem, -⟩ := hcomplete _ [] 0 cached.data hreturns
  cases hmem

/-- **Zone invalidation.** A name at or below the origin is cleared in every run
    exactly if the test of `invalidate_zone` finds it, which compares letters,
    or nothing is ever stored. -/
theorem invalidation_complete_iff (cfg : CacheConfig) (computeFingerprint : Bytes → UInt64)
    (origin : Str) (query : CacheQuery) :
    (AtOrBelow query.parsed.qname origin →
      InvalidationComplete cfg computeFingerprint origin query.key) ↔
    (AtOrBelow query.parsed.qname origin → Stores cfg →
      dominated origin query.parsed.qname = true) := by
  refine imp_congr_right fun _ => ?_
  rw [← query.qname_key]
  constructor
  · intro hcomplete hstores
    by_contra hnot
    exact not_invalidationComplete hstores (by simpa using hnot) hcomplete
  · exact invalidationComplete_of_dominated

/-- A query for the address of `Example.com`. -/
def mixedCaseQuery : Bytes :=
  [0x12, 0x34, 1, 0, 0, 1, 0, 0, 0, 0, 0, 0] ++ 7 :: utf8 "Example".toList ++
    3 :: utf8 "com".toList ++ [0, 0, 1, 0, 1]

def mixedCase : ParsedDnsQuery where
  id := 0x1234
  flags := QueryFlags.fromU16 0x0100
  qdcount := 1
  qname := "Example.com".toList
  qnameEnd := 25
  qtype := 1
  qclass := 1
  questionEnd := 29
  hasEdns := false
  dnssecOk := false
  raw := mixedCaseQuery

def mixedCaseLookup : CacheQuery where
  ns := .authoritative
  parsed := mixedCase
  clientIp := .v4 ⟨[192, 0, 2, 1], rfl⟩
  transportClass := .udp512

theorem invalidation_misses_mixed_case :
    ParsedDnsQuery.parse mixedCaseQuery = .ok (.ok mixedCaseLookup.parsed) ∧
    ¬ ∀ computeFingerprint, AtOrBelow mixedCaseLookup.parsed.qname "example.com".toList →
      InvalidationComplete (.new 1000 3600 60) computeFingerprint "example.com".toList
        mixedCaseLookup.key := by
  refine ⟨by decide, fun hall => ?_⟩
  have hstores : Stores (.new 1000 3600 60) := .inl (by decide)
  exact not_invalidationComplete hstores (by decide) (hall (fun _ => 0) (by decide))

end DnsCache

end Synvoid.Dns
