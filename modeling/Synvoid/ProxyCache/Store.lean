import Synvoid.Framework.Table
import Synvoid.Framework.Transition
import Synvoid.ProxyCache.CacheKey

/-! # Freshness of cached responses

    Model of `ProxyCache` (`synvoid-proxy-cache/src/store.rs`) as far as it decides
    what is served: insertion in memory or on disk, the two lookups and
    `get_hit_status`, and removal. The cache map is an exact map, and every call
    reads the clock once.

    An entry is inserted as fresh, and no later call changes that: a lookup of a
    stale entry writes its copy with `entry().or_insert()`, which keeps the entry
    that is there and returns it. So every stored entry is fresh in every state
    (`entries_fresh`), a stale entry is served as a fresh one, and an entry on
    disk is served at any time. `lookups_right_iff` says which lookups of a run go
    right.

    Sizes, statistics, the index of hosts and the pool of revalidations are left
    out.
-/

namespace Synvoid.ProxyCache

open Synvoid.Framework Synvoid.Http

structure ProxyCacheEntry where
  content : Bytes
  status : UInt16
  headers : HeaderMap
  createdAt : Nat
  lastAccessed : Nat
  expiresAt : Option Nat
  staleWhileRevalidate : Option Nat
  staleIfError : Option Nat
  isFresh : Bool

namespace ProxyCacheEntry

def new (now : Nat) (content : Bytes) (status : UInt16) (headers : HeaderMap)
    (maxAge swr sie : Option Nat) : ProxyCacheEntry :=
  let expiresAt := maxAge.map (now + ·)
  { content, status, headers, expiresAt
    createdAt := now
    lastAccessed := now
    staleWhileRevalidate := swr.bind fun d => expiresAt.map (· + d)
    staleIfError := sie.bind fun d => expiresAt.map (· + d)
    isFresh := true }

def isExpired (entry : ProxyCacheEntry) (now : Nat) : Bool :=
  match entry.expiresAt with
  | some expiresAt => now > expiresAt
  | none => false

def isStaleWhileRevalidate (entry : ProxyCacheEntry) (now : Nat) : Bool :=
  match entry.staleWhileRevalidate with
  | some swr => now ≤ swr && entry.isExpired now
  | none => false

def isStaleIfError (entry : ProxyCacheEntry) (now : Nat) : Bool :=
  match entry.staleIfError with
  | some sie => now ≤ sie && entry.isExpired now
  | none => false

def updateAccess (entry : ProxyCacheEntry) (now : Nat) : ProxyCacheEntry :=
  { entry with lastAccessed := now }

end ProxyCacheEntry

inductive CacheHit where
  | hit
  | miss
  | expired
  | stale
  | staleWhileRevalidate
  deriving DecidableEq

inductive CacheError where
  | disabled
  | notCacheable

structure CacheEntryInner where
  entry : ProxyCacheEntry
  size : Nat
  onDisk : Bool
  diskPath : Option Str
  checksum : UInt64

structure ProxyCacheSettings where
  enabled : Bool
  maxMemorySize : Nat
  inactive : Nat
  useTempFile : Bool
  validStatus : List UInt16
  staleWhileRevalidate : Option Nat
  staleIfError : Option Nat

/-- The hash of a content and the path of the file of a key. -/
structure DiskLayout where
  computeChecksum : Bytes → UInt64
  filePath : CacheKey → Str

/-- The time of a call and the files at that time. -/
structure Moment where
  now : Nat
  files : Str → Option Bytes

abbrev Entries := Table CacheKey CacheEntryInner

/-- `entry(key).or_insert(inner)`: the entry that is in the map afterwards. -/
def orInsert (entries : Entries) (key : CacheKey) (inner : CacheEntryInner) :
    CacheEntryInner × Entries :=
  match entries.lookup key with
  | some old => (old, entries)
  | none => (inner, entries.insert key inner)

section operations
variable (layout : DiskLayout) (settings : ProxyCacheSettings) (moment : Moment) (entries : Entries)

def getAsync (key : CacheKey) : Option ProxyCacheEntry × Entries :=
  match entries.lookup key with
  | none => (none, entries)
  | some inner =>
      match inner.diskPath.bind moment.files with
      | none => (none, entries)
      | some content =>
          if inner.checksum ≠ layout.computeChecksum content then (none, entries.erase key)
          else (some ({ inner.entry with content := content }.updateAccess moment.now), entries)

/-- The copy of a stale entry that is written back. -/
def staleCopy (inner : CacheEntryInner) : CacheEntryInner :=
  { inner with entry := { inner.entry with isFresh := false }.updateAccess moment.now }

def get (key : CacheKey) : Option ProxyCacheEntry × Entries :=
  if !settings.enabled then (none, entries)
  else
    match entries.lookup key with
    | none => (none, entries)
    | some inner =>
        if inner.onDisk then getAsync layout moment entries key
        else if inner.entry.isExpired moment.now then
          if inner.entry.isStaleWhileRevalidate moment.now then
            let (stored, entries') := orInsert entries key (staleCopy moment inner)
            (some stored.entry, entries')
          else if inner.entry.isStaleIfError moment.now then
            let (stored, entries') := orInsert entries key (staleCopy moment inner)
            (some stored.entry, entries')
          else (none, entries.erase key)
        else (some inner.entry, entries)

def getHitStatus (key : CacheKey) : Option CacheHit :=
  if !settings.enabled then none
  else
    (entries.lookup key).bind fun inner =>
      if inner.entry.isFresh then some .hit
      else if inner.entry.isStaleWhileRevalidate moment.now then some .staleWhileRevalidate
      else if inner.entry.isStaleIfError moment.now then some .stale
      else if inner.entry.isExpired moment.now then some .expired
      else none

/-- `writable` is whether the file can be written where that is waited for. -/
def insert (key : CacheKey) (content : Bytes) (status : UInt16) (headers : HeaderMap)
    (maxAge : Option Nat) (writable : Bool) : Except CacheError Entries :=
  if !settings.enabled then .error .disabled
  else if status ∉ settings.validStatus then .error .notCacheable
  else
    let tooLarge := content.length > settings.maxMemorySize
    if tooLarge ∧ !settings.useTempFile then .error .notCacheable
    else
      let onDisk := decide tooLarge && writable
      .ok (entries.insert key {
        entry := ProxyCacheEntry.new moment.now content status headers maxAge
          settings.staleWhileRevalidate settings.staleIfError
        size := content.length
        onDisk := onDisk
        diskPath := if onDisk then some (layout.filePath key) else none
        checksum := layout.computeChecksum content })

def invalidate (key : CacheKey) : Entries := entries.erase key

def cleanupExpired : Entries :=
  entries.traverse fun _ inner =>
    if moment.now - inner.entry.createdAt > settings.inactive ∨
        inner.entry.isExpired moment.now = true then none
    else some inner

end operations

/-! ### Histories -/

inductive CacheCall where
  | insert (key : CacheKey) (content : Bytes) (status : UInt16) (headers : HeaderMap)
      (maxAge : Option Nat) (writable : Bool)
  | get (key : CacheKey)
  | getHitStatus (key : CacheKey)
  | invalidate (key : CacheKey)
  | cleanupExpired

/-- The map after a call. -/
def afterCall (layout : DiskLayout) (settings : ProxyCacheSettings) (entries : Entries)
    (call : Moment × CacheCall) : Entries :=
  match call.2 with
  | .insert key content status headers maxAge writable =>
      match insert layout settings call.1 entries key content status headers maxAge writable with
      | .ok entries' => entries'
      | .error _ => entries
  | .get key => (get layout settings call.1 entries key).2
  | .getHitStatus _ => entries
  | .invalidate key => invalidate entries key
  | .cleanupExpired => cleanupExpired settings call.1 entries

/-- The cache, which starts empty. -/
def proxyCache (layout : DiskLayout) (settings : ProxyCacheSettings) :
    System Entries (Moment × CacheCall) where
  init entries := entries = ∅
  step entries call entries' := entries' = afterCall layout settings entries call

/-- All limits of the entry have passed. -/
def AllPassed (entry : ProxyCacheEntry) (now : Nat) : Prop :=
  entry.isExpired now = true ∧ (∀ swr, entry.staleWhileRevalidate = some swr → swr < now) ∧
    ∀ sie, entry.staleIfError = some sie → sie < now

/-- The entry can be served: not all limits have passed, and it is fresh only
    before it expires. -/
def Servable (entry : ProxyCacheEntry) (now : Nat) : Prop :=
  ¬ AllPassed entry now ∧ (entry.isExpired now = true → entry.isFresh = false)

/-- A lookup in the state of the cache returns what it should. -/
def LookupRight (layout : DiskLayout) (settings : ProxyCacheSettings) (entries : Entries)
    (call : Moment × CacheCall) : Prop :=
  match call.2 with
  | .get key => ∀ entry, (get layout settings call.1 entries key).1 = some entry →
      Servable entry call.1.now
  | .getHitStatus key => getHitStatus settings call.1 entries key = some .hit →
      ∀ inner, entries.lookup key = some inner → inner.entry.isExpired call.1.now = false
  | _ => True

/-- The file of an entry is there and has its checksum. -/
def ReadableFile (layout : DiskLayout) (moment : Moment) (inner : CacheEntryInner) : Prop :=
  ∃ content, inner.diskPath.bind moment.files = some content ∧
    inner.checksum = layout.computeChecksum content

/-- A lookup does not come upon an expired entry, except one in memory whose
    limits have all passed, or one on disk that cannot be read. -/
def LookupSafe (layout : DiskLayout) (settings : ProxyCacheSettings) (entries : Entries)
    (call : Moment × CacheCall) : Prop :=
  match call.2 with
  | .get key => settings.enabled = true → ∀ inner, entries.lookup key = some inner →
      inner.entry.isExpired call.1.now = true →
      if inner.onDisk then ¬ ReadableFile layout call.1 inner
      else AllPassed inner.entry call.1.now
  | .getHitStatus key => settings.enabled = true → ∀ inner, entries.lookup key = some inner →
      inner.entry.isExpired call.1.now = false
  | _ => True

/-! ### What a lookup returns -/

section lookups
variable {layout : DiskLayout} {settings : ProxyCacheSettings} {moment : Moment} {entries : Entries}
variable {key : CacheKey} {inner : CacheEntryInner}

theorem orInsert_of_lookup (h : entries.lookup key = some inner) (copy : CacheEntryInner) :
    orInsert entries key copy = (inner, entries) := by
  rw [orInsert, h]

/-- A lookup leaves the map as it is or removes the key. -/
theorem get_entries (layout : DiskLayout) (settings : ProxyCacheSettings) (moment : Moment)
    (entries : Entries) (key : CacheKey) :
    (get layout settings moment entries key).2 = entries ∨
      (get layout settings moment entries key).2 = entries.erase key := by
  unfold get
  split
  · exact .inl rfl
  · cases hlookup : entries.lookup key with
    | none => exact .inl rfl
    | some inner =>
      simp only [orInsert_of_lookup hlookup]
      split_ifs
      · -- the lookup on disk removes an entry with another checksum
        unfold getAsync
        rw [hlookup]
        simp only
        split
        · exact .inl rfl
        · split_ifs
          · exact .inr rfl
          · exact .inl rfl
      · exact .inl rfl
      · exact .inl rfl
      · exact .inr rfl
      · exact .inl rfl

/-- A lookup in memory. -/
theorem get_memory (henabled : settings.enabled = true) (hlookup : entries.lookup key = some inner)
    (hmemory : inner.onDisk = false) :
    (get layout settings moment entries key).1 =
      if inner.entry.isExpired moment.now = true ∧
          inner.entry.isStaleWhileRevalidate moment.now = false ∧
          inner.entry.isStaleIfError moment.now = false then none
      else some inner.entry := by
  unfold get
  rw [henabled, hlookup]
  simp only [orInsert_of_lookup hlookup, hmemory]
  cases inner.entry.isExpired moment.now <;>
    cases inner.entry.isStaleWhileRevalidate moment.now <;>
    cases inner.entry.isStaleIfError moment.now <;> rfl

/-- A lookup on disk gives the entry back with the content of its file. -/
theorem get_disk (henabled : settings.enabled = true) (hlookup : entries.lookup key = some inner)
    (hdisk : inner.onDisk = true) (entry : ProxyCacheEntry) :
    (get layout settings moment entries key).1 = some entry ↔
      ∃ content, inner.diskPath.bind moment.files = some content ∧
        inner.checksum = layout.computeChecksum content ∧
        entry = { inner.entry with content := content }.updateAccess moment.now := by
  unfold get getAsync
  rw [henabled, hlookup]
  simp only [hdisk, Bool.not_true, Bool.false_eq_true, if_false, if_true]
  cases hread : inner.diskPath.bind moment.files with
  | none => simp
  | some content =>
    simp only
    split_ifs with hchecksum
    · simp [hchecksum]
    · rw [ne_eq, not_not] at hchecksum
      simp [hchecksum, eq_comm]

theorem get_eq_some (h : (get layout settings moment entries key).1 = some entry) :
    settings.enabled = true ∧ ∃ inner, entries.lookup key = some inner := by
  unfold get at h
  cases henabled : settings.enabled with
  | false =>
    rw [henabled] at h
    cases h
  | true =>
    rw [henabled] at h
    refine ⟨rfl, ?_⟩
    cases hlookup : entries.lookup key with
    | none =>
      rw [hlookup] at h
      cases h
    | some inner => exact ⟨inner, rfl⟩

/-- The limits of an expired entry have passed if it is in no stale period. -/
theorem allPassed_iff (entry : ProxyCacheEntry) (now : Nat) :
    AllPassed entry now ↔ entry.isExpired now = true ∧ entry.isStaleWhileRevalidate now = false ∧
      entry.isStaleIfError now = false := by
  unfold AllPassed ProxyCacheEntry.isStaleWhileRevalidate ProxyCacheEntry.isStaleIfError
  refine and_congr_right fun hexpired => ?_
  rw [hexpired]
  cases entry.staleWhileRevalidate <;> cases entry.staleIfError <;> simp

/-- What is stored is a new entry. -/
theorem insert_eq_ok {content : Bytes} {status : UInt16} {headers : HeaderMap} {maxAge : Option Nat}
    {writable : Bool} {entries' : Entries}
    (h : insert layout settings moment entries key content status headers maxAge writable =
      .ok entries') :
    ∃ inner, entries' = entries.insert key inner ∧
      inner.entry = ProxyCacheEntry.new moment.now content status headers maxAge
        settings.staleWhileRevalidate settings.staleIfError := by
  unfold insert at h
  simp only at h
  split at h
  · cases h
  · split at h
    · cases h
    · split at h
      · cases h
      · obtain rfl := Except.ok.inj h
        exact ⟨_, rfl, rfl⟩

theorem servable_of_unexpired {entry : ProxyCacheEntry} {now : Nat}
    (h : entry.isExpired now = false) : Servable entry now := by
  constructor
  · rintro ⟨hexpired, -⟩
    rw [h] at hexpired
    cases hexpired
  · intro hexpired
    rw [h] at hexpired
    cases hexpired

end lookups

/-! ### Runs -/

/-- Every stored entry counts as fresh. -/
def AllFresh (entries : Entries) : Prop :=
  ∀ key inner, entries.lookup key = some inner → inner.entry.isFresh = true

theorem AllFresh.erase {entries : Entries} (h : AllFresh entries) (key : CacheKey) :
    AllFresh (entries.erase key) := by
  intro key' inner hlookup
  rw [Table.lookup_erase_eq] at hlookup
  split_ifs at hlookup
  exact h key' inner hlookup

theorem allFresh_afterCall (layout : DiskLayout) (settings : ProxyCacheSettings) {entries : Entries}
    (h : AllFresh entries) (call : Moment × CacheCall) :
    AllFresh (afterCall layout settings entries call) := by
  obtain ⟨moment, call⟩ := call
  cases call with
  | insert key content status headers maxAge writable =>
    unfold afterCall
    simp only
    split
    · next entries' hinsert =>
      obtain ⟨inner₀, rfl, hentry⟩ := insert_eq_ok hinsert
      intro key' inner hlookup
      rw [Table.lookup_insert_eq] at hlookup
      split_ifs at hlookup
      · obtain rfl := Option.some.inj hlookup
        rw [hentry]
        rfl
      · exact h key' inner hlookup
    · exact h
  | get key =>
    change AllFresh (get layout settings moment entries key).2
    rcases get_entries layout settings moment entries key with hsame | herase
    · rwa [hsame]
    · rw [herase]
      exact h.erase key
  | getHitStatus key => exact h
  | invalidate key => exact h.erase key
  | cleanupExpired =>
    intro key inner hlookup
    change (cleanupExpired settings moment entries).lookup key = some inner at hlookup
    rw [cleanupExpired, Table.lookup_traverse] at hlookup
    obtain ⟨inner', hlookup', hkept⟩ := Option.bind_eq_some_iff.mp hlookup
    split_ifs at hkept
    obtain rfl := Option.some.inj hkept
    exact h key inner' hlookup'

/-- No run turns a stored entry stale. -/
theorem entries_fresh {layout : DiskLayout} {settings : ProxyCacheSettings}
    {tr : List (Entries × (Moment × CacheCall))} {entries : Entries}
    (h : (proxyCache layout settings).Exec tr entries) : AllFresh entries := by
  refine System.Exec.invariant AllFresh ?_ ?_ h
  · rintro entries rfl key inner hlookup
    cases hlookup
  · rintro entries call entries' hfresh rfl
    exact allFresh_afterCall layout settings hfresh call

/-- Where all entries count as fresh, these are the lookups that go right. -/
theorem lookupRight_iff (layout : DiskLayout) (settings : ProxyCacheSettings) {entries : Entries}
    (hfresh : AllFresh entries) (call : Moment × CacheCall) :
    LookupRight layout settings entries call ↔ LookupSafe layout settings entries call := by
  obtain ⟨moment, call⟩ := call
  cases call with
  | insert key content status headers maxAge writable => exact Iff.rfl
  | invalidate key => exact Iff.rfl
  | cleanupExpired => exact Iff.rfl
  | getHitStatus key =>
    simp only [LookupRight, LookupSafe]
    constructor
    · intro h henabled inner hlookup
      refine h ?_ inner hlookup
      rw [getHitStatus, henabled, hlookup, Option.bind_some, hfresh key inner hlookup]
      rfl
    · intro h hhit inner hlookup
      refine h ?_ inner hlookup
      by_contra henabled
      rw [getHitStatus, Bool.eq_false_of_not_eq_true henabled] at hhit
      cases hhit
  | get key =>
    simp only [LookupRight, LookupSafe]
    constructor
    · intro h henabled inner hlookup hexpired
      have hnotServable : ∀ entry, (get layout settings moment entries key).1 = some entry →
          entry.isExpired moment.now = true → entry.isFresh = true → False := by
        intro entry hget hentry hisFresh
        have hstale := (h entry hget).2 hentry
        rw [hisFresh] at hstale
        cases hstale
      split_ifs with hdisk
      · rintro ⟨content, hread, hchecksum⟩
        exact hnotServable _ ((get_disk henabled hlookup hdisk _).mpr
          ⟨content, hread, hchecksum, rfl⟩) hexpired (hfresh key inner hlookup)
      · rw [allPassed_iff]
        by_contra hnot
        refine hnotServable inner.entry ?_ hexpired (hfresh key inner hlookup)
        rw [get_memory henabled hlookup (Bool.eq_false_of_not_eq_true hdisk), if_neg hnot]
    · intro h entry hget
      obtain ⟨henabled, inner, hlookup⟩ := get_eq_some hget
      have hsafe := h henabled inner hlookup
      cases hdisk : inner.onDisk with
      | true =>
        obtain ⟨content, hread, hchecksum, rfl⟩ := (get_disk henabled hlookup hdisk entry).mp hget
        have hunexpired : inner.entry.isExpired moment.now = false := by
          by_contra hexpired
          have hunread := hsafe (Bool.eq_true_of_not_eq_false hexpired)
          rw [if_pos hdisk] at hunread
          exact hunread ⟨content, hread, hchecksum⟩
        exact servable_of_unexpired hunexpired
      | false =>
        rw [get_memory henabled hlookup hdisk] at hget
        split_ifs at hget with hpassed
        obtain rfl := Option.some.inj hget
        refine servable_of_unexpired ?_
        by_contra hexpired
        have hall := hsafe (Bool.eq_true_of_not_eq_false hexpired)
        rw [if_neg (by simp [hdisk]), allPassed_iff] at hall
        exact hpassed hall

/-- **Freshness**: all lookups of a run go right exactly if none of them comes upon
    an expired entry that it serves. -/
theorem lookups_right_iff (layout : DiskLayout) (settings : ProxyCacheSettings)
    {tr : List (Entries × (Moment × CacheCall))} {entries : Entries}
    (h : (proxyCache layout settings).Exec tr entries) :
    (∀ step ∈ tr, LookupRight layout settings step.1 step.2) ↔
      ∀ step ∈ tr, LookupSafe layout settings step.1 step.2 := by
  have hstates : ∀ step ∈ tr, AllFresh step.1 := by
    rintro ⟨entries', call⟩ hstep
    obtain ⟨pre, post, rfl⟩ := List.append_of_mem hstep
    exact entries_fresh h.before
  exact forall₂_congr fun step hstep => lookupRight_iff layout settings (hstates step hstep) step.2

/-! ### Examples -/

def exampleLayout : DiskLayout where
  computeChecksum content := UInt64.ofNat content.length
  filePath _ := "file".toList

/-- Responses may be served for 100 seconds after they have expired. -/
def exampleSettings : ProxyCacheSettings where
  enabled := true
  maxMemorySize := 1000
  inactive := 3600
  useTempFile := true
  validStatus := [200]
  staleWhileRevalidate := some 100
  staleIfError := none

def exampleKey : CacheKey :=
  CacheKey.new (fun _ _ => 0) (requestWith []) "$host".toList []

/-- A response with a lifetime of 10 seconds. -/
def insertCall : Moment × CacheCall :=
  (⟨0, fun _ => none⟩, .insert exampleKey [1, 2, 3] 200 [] (some 10) true)

def storedEntries : Entries := afterCall exampleLayout exampleSettings ∅ insertCall

def storedInner : CacheEntryInner where
  entry := .new 0 [1, 2, 3] 200 [] (some 10) (some 100) none
  size := 3
  onDisk := false
  diskPath := none
  checksum := exampleLayout.computeChecksum [1, 2, 3]

theorem lookup_storedEntries : storedEntries.lookup exampleKey = some storedInner := by
  have hstored : storedEntries = AList.insert exampleKey storedInner ∅ := rfl
  rw [hstored, AList.lookup_insert]

/-- The status of the response and a lookup at the given time. -/
def exampleRun (now : Nat) : List (Entries × (Moment × CacheCall)) :=
  [(∅, insertCall), (storedEntries, ⟨now, fun _ => none⟩, .getHitStatus exampleKey),
    (storedEntries, ⟨now, fun _ => none⟩, .get exampleKey)]

theorem exampleRun_exec (now : Nat) :
    (proxyCache exampleLayout exampleSettings).Exec (exampleRun now)
      (afterCall exampleLayout exampleSettings storedEntries
        (⟨now, fun _ => none⟩, .get exampleKey)) :=
  (((System.Exec.nil rfl).snoc rfl).snoc rfl).snoc rfl

/-- Lookups before the response expires. -/
theorem lookups_right_before_expiry :
    ∃ entries, (proxyCache exampleLayout exampleSettings).Exec (exampleRun 5) entries ∧
      ∀ step ∈ exampleRun 5, LookupRight exampleLayout exampleSettings step.1 step.2 := by
  refine ⟨_, exampleRun_exec 5, (lookups_right_iff _ _ (exampleRun_exec 5)).mpr ?_⟩
  intro step hstep
  simp only [exampleRun, List.mem_cons, List.not_mem_nil, or_false] at hstep
  have hunexpired : storedInner.entry.isExpired 5 = false := by decide
  rcases hstep with rfl | rfl | rfl
  · trivial
  · rintro - inner hlookup
    rw [lookup_storedEntries] at hlookup
    obtain rfl := Option.some.inj hlookup
    exact hunexpired
  · rintro - inner hlookup hexpired
    rw [lookup_storedEntries] at hlookup
    obtain rfl := Option.some.inj hlookup
    exact absurd hexpired (by rw [hunexpired]; decide)

/-- After 50 seconds the response counts as a hit. -/
theorem expired_response_is_hit :
    ¬ (∀ (layout : DiskLayout) (settings : ProxyCacheSettings)
      (tr : List (Entries × (Moment × CacheCall))) (entries : Entries),
      (proxyCache layout settings).Exec tr entries →
      (tr.map fun step => step.2.1.now).Pairwise (· ≤ ·) →
      ∀ step ∈ tr, LookupRight layout settings step.1 step.2) := by
  intro h
  have hright := h _ _ _ _ (exampleRun_exec 50) (by decide)
    (storedEntries, ⟨50, fun _ => none⟩, .getHitStatus exampleKey) (by simp [exampleRun])
  have hhit : getHitStatus exampleSettings ⟨50, fun _ => none⟩ storedEntries exampleKey =
      some .hit := by
    rw [getHitStatus, lookup_storedEntries]
    rfl
  have hunexpired := hright hhit storedInner lookup_storedEntries
  exact absurd hunexpired (by decide)

end Synvoid.ProxyCache
