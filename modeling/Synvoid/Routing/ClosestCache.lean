import Synvoid.Routing.FindClosest

/-! # The cache of closest contacts

    `find_closest` keeps its result under the first eight bytes of the target,
    whatever `k` was, and gives it out again cut to the new `k`. The operations
    that add or remove contacts empty the cache, but `try_insert` does so only
    when it has evicted a contact, and a contact that is seen again is updated
    without it.

    A cached result is what the search gave when it was stored
    (`CacheInv.cached`). It is what the search gives now if the contacts are
    still the same, the target is the one it was stored for, and `k` does not
    ask for more contacts than it holds (`take_findClosestUncached_iff`). In
    every run, the searches with this property are coherent
    (`closest_cache_coherent`); a contact added by `try_insert` is not found
    before the entry goes away (`cached_result_misses_contact`).
-/

namespace Synvoid.Routing

open Synvoid.Framework Synvoid.Mesh

/-! ## Section 1: The cached search -/

/-- `u64::from_ne_bytes` of the first bytes, here for a little-endian host. -/
def cacheKey (target : NodeId) : Nat := leValue (target.bytes.take 8)

namespace RoutingTable

def findClosest (t : RoutingTable) (target : NodeId) (k : Nat) : List PeerContact × RoutingTable :=
  match t.closestCache.lookup (cacheKey target) with
  | some cached => (cached.take k, t)
  | none =>
      let result := t.findClosestUncached target k
      (result, { t with closestCache := t.closestCache.insert (cacheKey target) result })

/-- An entry that is evicted, or older than its time to live. -/
def expire (t : RoutingTable) (key : Nat) : RoutingTable :=
  { t with closestCache := t.closestCache.erase key }

/-! ## Section 2: What a search depends on -/

/-- The contacts of two tables of one node are the same, with all their data. -/
def SameContacts (t t' : RoutingTable) : Prop :=
  t.localNodeId = t'.localNodeId ∧ ∀ i, (t.buckets i).peers.Perm (t'.buckets i).peers

theorem SameContacts.foundContacts_perm {t t' : RoutingTable} (h : t.SameContacts t')
    (target : NodeId) : (t.foundContacts target).Perm (t'.foundContacts target) := by
  unfold foundContacts
  rw [h.1]
  exact List.Perm.flatMap_left _ fun i _ => h.2 i

theorem findClosestUncached_new (localNodeId : NodeId) (localNodeIdString : String) (now : Int)
    (target : NodeId) (k : Nat) :
    (RoutingTable.new localNodeId localNodeIdString now).findClosestUncached target k = [] := by
  have hfound : (RoutingTable.new localNodeId localNodeIdString now).foundContacts target = [] := by
    unfold foundContacts
    rw [List.flatMap_eq_nil_iff]
    intro i _
    rfl
  simp [findClosestUncached, hfound, selectNearest, selectCandidates, sortByDist]

section valid
variable {t t' : RoutingTable} (hvalid : t.Valid) (hvalid' : t'.Valid)

include hvalid hvalid'

theorem SameContacts.findClosestUncached_eq (h : t.SameContacts t') (target : NodeId) (k : Nat) :
    t.findClosestUncached target k = t'.findClosestUncached target k := by
  have hinj : DistInj (distanceTo target) (t'.foundContacts target) :=
    (distInj_getAllContacts hvalid' target).mono fun p hp => mem_getAllContacts_of_found hp
  rw [RoutingTable.findClosestUncached_eq hvalid, RoutingTable.findClosestUncached_eq hvalid',
    sortByDist_congr hinj (h.foundContacts_perm target)]

/-- A result for `k'`, cut to `k`, is the one for `k` just when it is long
    enough or has all contacts. -/
theorem take_findClosestUncached_iff (h : t.SameContacts t') (target : NodeId) (k k' : Nat) :
    (t.findClosestUncached target k').take k = t'.findClosestUncached target k ↔
      k ≤ k' ∨ t'.contactsMet target ≤ k' := by
  rw [h.findClosestUncached_eq hvalid hvalid', RoutingTable.findClosestUncached_eq hvalid',
    RoutingTable.findClosestUncached_eq hvalid', List.take_take, ← length_foundContacts,
    ← (sortByDist_perm (distanceTo target) (t'.foundContacts target)).length_eq,
    List.take_eq_take_iff]
  omega

end valid

end RoutingTable

/-! ## Section 3: Runs -/

inductive CacheOp where
  | contact (op : ContactOp)
  | findClosest (target : NodeId) (k : Nat)
  | expire (key : Nat)

/-- The search whose result was stored. -/
structure Origin where
  table : RoutingTable
  target : NodeId
  k : Nat

/-- A table, and for each key the search that was stored last. -/
structure CacheState where
  table : RoutingTable
  origin : Nat → Option Origin

def CacheState.cached (s : CacheState) (key : Nat) : Option (List PeerContact) :=
  s.table.closestCache.lookup key

def CacheOp.run (sha256 : Sha256) (s : CacheState) : CacheOp → CacheState
  | contact op => { s with table := op.run sha256 s.table }
  | findClosest target k =>
      { table := (s.table.findClosest target k).2
        origin :=
          match s.cached (cacheKey target) with
          | some _ => s.origin
          | none => Function.update s.origin (cacheKey target) (some ⟨s.table, target, k⟩) }
  | expire key => { s with table := s.table.expire key }

def cacheSystem (sha256 : Sha256) : System CacheState CacheOp where
  init := fun s => s.table.Initial ∧ ∀ key, s.origin key = none
  step := fun s op s' => s' = op.run sha256 s

/-- A cached entry is the result of its search. -/
structure Origin.Gives (o : Origin) (s : CacheState) (cached : List PeerContact) : Prop where
  valid : o.table.Valid
  sameNode : o.table.localNodeId = s.table.localNodeId
  result : cached = o.table.findClosestUncached o.target o.k

structure CacheInv (s : CacheState) : Prop where
  valid : s.table.Valid
  cached : ∀ key list, s.cached key = some list → ∃ o, s.origin key = some o ∧ o.Gives s list

theorem CacheInv.init {s : CacheState} (h : s.table.Initial) : CacheInv s := by
  refine ⟨h.valid, fun key list hcached => ?_⟩
  obtain ⟨localNodeId, localNodeIdString, now, duration, htable⟩ := h
  rw [CacheState.cached, htable] at hcached
  cases hcached

/-- An entry that stays has the same origin. -/
theorem CacheInv.of_subset {s s' : CacheState} (hinv : CacheInv s) (hvalid : s'.table.Valid)
    (hnode : s'.table.localNodeId = s.table.localNodeId) (horigin : s'.origin = s.origin)
    (hsub : ∀ key list, s'.cached key = some list → s.cached key = some list) : CacheInv s' := by
  refine ⟨hvalid, fun key list hcached => ?_⟩
  obtain ⟨o, ho, hgives⟩ := hinv.cached key list (hsub key list hcached)
  refine ⟨o, by rw [horigin, ho], hgives.valid, ?_, hgives.result⟩
  rw [hnode, hgives.sameNode]

theorem CacheOp.run_findClosest_of_hit {sha256 : Sha256} {s : CacheState}
    {target : NodeId} {k : Nat}
    {list : List PeerContact} (h : s.cached (cacheKey target) = some list) :
    (CacheOp.findClosest target k).run sha256 s = s := by
  have htable : (s.table.findClosest target k).2 = s.table := by
    rw [CacheState.cached] at h
    rw [RoutingTable.findClosest, h]
  simp only [CacheOp.run, h, htable]

theorem CacheOp.run_findClosest_of_miss {sha256 : Sha256} {s : CacheState}
    {target : NodeId} {k : Nat}
    (h : s.cached (cacheKey target) = none) :
    (CacheOp.findClosest target k).run sha256 s =
      { table := { s.table with
          closestCache := s.table.closestCache.insert (cacheKey target)
            (s.table.findClosestUncached target k) }
        origin := Function.update s.origin (cacheKey target) (some ⟨s.table, target, k⟩) } := by
  have htable : (s.table.findClosest target k).2 = { s.table with
      closestCache := s.table.closestCache.insert (cacheKey target)
        (s.table.findClosestUncached target k) } := by
    rw [CacheState.cached] at h
    rw [RoutingTable.findClosest, h]
  simp only [CacheOp.run, h, htable]

theorem CacheInv.findClosest {sha256 : Sha256} {s : CacheState} (hinv : CacheInv s)
    (target : NodeId) (k : Nat) : CacheInv ((CacheOp.findClosest target k).run sha256 s) := by
  cases hlookup : s.cached (cacheKey target) with
  | some list =>
    rw [CacheOp.run_findClosest_of_hit hlookup]
    exact hinv
  | none =>
    rw [CacheOp.run_findClosest_of_miss hlookup]
    refine ⟨hinv.valid.of_buckets_eq rfl rfl, fun key list hcached => ?_⟩
    rw [CacheState.cached, Table.lookup_insert_eq] at hcached
    by_cases hkey : key = cacheKey target
    · subst hkey
      rw [if_pos rfl, Option.some.injEq] at hcached
      exact ⟨⟨s.table, target, k⟩, Function.update_self .., hinv.valid, rfl, hcached.symm⟩
    · rw [if_neg hkey] at hcached
      obtain ⟨o, ho, hgives⟩ := hinv.cached key list hcached
      refine ⟨o, ?_, hgives.valid, hgives.sameNode, hgives.result⟩
      rw [← ho]
      exact Function.update_of_ne hkey _ _

theorem CacheInv.step {sha256 : Sha256} {s : CacheState} (hinv : CacheInv s) (op : CacheOp) :
    CacheInv (op.run sha256 s) := by
  cases op with
  | contact op =>
    have hchange := op.run_changed sha256 hinv.valid
    refine hinv.of_subset (hchange.valid hinv.valid) hchange.sameNode rfl ?_
    intro key list hcached
    rcases hchange.cache with hsame | hempty
    · rwa [CacheState.cached, CacheOp.run, hsame] at hcached
    · rw [CacheState.cached, CacheOp.run, hempty] at hcached
      cases hcached
  | findClosest target k => exact hinv.findClosest target k
  | expire key =>
    refine hinv.of_subset (hinv.valid.of_buckets_eq rfl rfl) rfl rfl ?_
    intro key' list hcached
    rw [CacheState.cached, CacheOp.run, RoutingTable.expire, Table.lookup_erase_eq] at hcached
    split at hcached
    · cases hcached
    · exact hcached

/-! ## Section 4: Coherence -/

/-- The result is the one without a cache. -/
def CacheOp.Coherent (s : CacheState) : CacheOp → Prop
  | findClosest target k =>
      (s.table.findClosest target k).1 = s.table.findClosestUncached target k
  | _ => True

/-- A cached entry was stored for this target, when the contacts were those of
    now, and holds as many contacts as are asked for, or all. -/
def CacheOp.Fresh (s : CacheState) : CacheOp → Prop
  | findClosest target k =>
      (s.cached (cacheKey target)).isSome → ∀ o, s.origin (cacheKey target) = some o →
        o.target = target ∧ (∀ i, (o.table.buckets i).peers.Perm (s.table.buckets i).peers) ∧
          (k ≤ o.k ∨ s.table.contactsMet target ≤ o.k)
  | _ => True

theorem CacheInv.coherent_of_fresh {s : CacheState} (hinv : CacheInv s) {op : CacheOp}
    (hfresh : op.Fresh s) : op.Coherent s := by
  cases op with
  | contact op => exact trivial
  | expire key => exact trivial
  | findClosest target k =>
    show (s.table.findClosest target k).1 = s.table.findClosestUncached target k
    unfold RoutingTable.findClosest
    cases hlookup : s.table.closestCache.lookup (cacheKey target) with
    | none => rfl
    | some cached =>
      obtain ⟨o, horigin, hgives⟩ := hinv.cached (cacheKey target) cached hlookup
      have hsome : (s.cached (cacheKey target)).isSome := by
        rw [CacheState.cached, hlookup]
        rfl
      obtain ⟨htarget, hcontacts, hk⟩ := hfresh hsome o horigin
      show cached.take k = s.table.findClosestUncached target k
      rw [hgives.result, htarget]
      exact (RoutingTable.take_findClosestUncached_iff hgives.valid hinv.valid
        ⟨hgives.sameNode, hcontacts⟩ target k o.k).mpr hk

/-- **Cache coherence.** In every run, a search that finds no entry, or one
    stored for the same target and contacts and not too short, gives what it
    would give with an empty cache. -/
theorem closest_cache_coherent (sha256 : Sha256) {tr : List (CacheState × CacheOp)} {s : CacheState}
    (h : (cacheSystem sha256).Exec tr s) (hfresh : ∀ step ∈ tr, step.2.Fresh step.1) :
    ∀ step ∈ tr, step.2.Coherent step.1 := by
  intro step hstep
  obtain ⟨pre, post, rfl⟩ := List.append_of_mem hstep
  have hinv : CacheInv step.1 := by
    refine System.Exec.invariant CacheInv ?_ ?_ h.before
    · intro s hs
      exact .init hs.1
    · intro s op s' hs hrun
      obtain rfl : s' = op.run sha256 s := hrun
      exact hs.step op
  exact hinv.coherent_of_fresh (hfresh step hstep)

/-! ### A contact added after a search -/

/-- A global contact that is new in a bucket with room is added, and the cache
    stays. -/
theorem RoutingTable.tryInsert_global {sha256 : Sha256} {t : RoutingTable} {now : Int}
    {peer : PeerContact} (hlocal : peer.nodeId ≠ t.localNodeId) (hglobal : peer.isGlobal = true)
    (hnew : peer.nodeId ∉ (t.buckets (peer.nodeId.bucketIndex t.localNodeId)).ids)
    (hroom : (t.buckets (peer.nodeId.bucketIndex t.localNodeId)).peers.length < kSize) :
    (t.tryInsert sha256 now peer).2 = t.setBucket (peer.nodeId.bucketIndex t.localNodeId)
      ((t.buckets (peer.nodeId.bucketIndex t.localNodeId)).push now peer) := by
  have hget := KBucket.get_eq_none.mpr hnew
  simp [tryInsert, hlocal, PeerContact.requiresPow, hglobal, KBucket.tryInsert, hget, hroom]

/-- The table with one contact, after a search for the local id. -/
def searchedState : CacheState :=
  (CacheOp.findClosest zeroId 20).run peerASha256 ⟨tableWith peerAId, fun _ => none⟩

theorem exec_newState :
    (cacheSystem peerASha256).Exec [] ⟨.new zeroId "local" 0, fun _ => none⟩ :=
  .nil ⟨initial_zero, fun _ => rfl⟩

theorem exec_searchedState : (cacheSystem peerASha256).Exec
    [(⟨.new zeroId "local" 0, fun _ => none⟩, .contact (.insert 0 (globalPeer peerAId))),
      (⟨tableWith peerAId, fun _ => none⟩, .findClosest zeroId 20)] searchedState :=
  (exec_newState.snoc rfl).snoc rfl

theorem closestCache_tableWith (nodeId : NodeId) : (tableWith nodeId).closestCache = ∅ := by
  rcases (RoutingTable.insert_changed peerASha256 (.new zeroId "local" 0) 0
    (globalPeer nodeId)).cache with hsame | hempty
  · exact hsame
  · exact hempty

theorem searchedState_eq : searchedState =
    { table := { tableWith peerAId with
        closestCache := (∅ : Table Nat (List PeerContact)).insert (cacheKey zeroId)
          ((tableWith peerAId).findClosestUncached zeroId 20) }
      origin := Function.update (fun _ => none) (cacheKey zeroId)
        (some ⟨tableWith peerAId, zeroId, 20⟩) } := by
  have hcache := closestCache_tableWith peerAId
  unfold searchedState
  rw [CacheOp.run_findClosest_of_miss, hcache]
  rw [CacheState.cached, hcache]
  rfl

/-- A second search for fewer contacts. -/
theorem second_search_coherent :
    (searchedState.table.findClosest zeroId 5).1 =
      searchedState.table.findClosestUncached zeroId 5 := by
  have hexec := exec_searchedState.snoc (l := .findClosest zeroId 5) rfl
  refine closest_cache_coherent peerASha256 hexec ?_
    (searchedState, .findClosest zeroId 5) (by simp)
  intro step hstep
  simp only [List.cons_append, List.nil_append, List.mem_cons, List.not_mem_nil, or_false] at hstep
  rcases hstep with rfl | rfl | rfl
  · exact trivial
  · intro hsome
    rw [CacheState.cached, closestCache_tableWith] at hsome
    cases hsome
  · intro _ o ho
    have horigin : searchedState.origin (cacheKey zeroId) =
        some ⟨tableWith peerAId, zeroId, 20⟩ := by
      simp only [searchedState_eq, Function.update_self]
    obtain rfl := Option.some.inj (horigin.symm.trans ho)
    refine ⟨rfl, fun i => ?_, Or.inl (by decide)⟩
    rw [searchedState_eq]

/-- A search in a new table has stored the empty result. -/
def storedEmpty : RoutingTable :=
  { RoutingTable.new zeroId "local" 0 with
    closestCache := (∅ : Table Nat (List PeerContact)).insert (cacheKey zeroId) [] }

theorem findClosest_new_table :
    ((RoutingTable.new zeroId "local" 0).findClosest zeroId 20).2 = storedEmpty := by
  show { RoutingTable.new zeroId "local" 0 with
    closestCache := (∅ : Table Nat (List PeerContact)).insert (cacheKey zeroId)
      ((RoutingTable.new zeroId "local" 0).findClosestUncached zeroId 20) } = storedEmpty
  rw [RoutingTable.findClosestUncached_new]
  rfl

/-- A search in a new table, and then `try_insert`: the contact that it adds is
    not found by the next search. -/
theorem cached_result_misses_contact :
    ¬ ∀ tr s, (cacheSystem peerASha256).Exec tr s → ∀ step ∈ tr, step.2.Coherent step.1 := by
  intro hall
  have hexec := ((exec_newState.snoc (l := .findClosest zeroId 20) rfl).snoc
    (l := .contact (.tryInsert 0 (globalPeer peerAId))) rfl).snoc (l := .findClosest zeroId 20) rfl
  have hcoherent := hall _ _ hexec _ (List.mem_append_right _ (List.mem_singleton_self _))
  let added := (storedEmpty.tryInsert peerASha256 0 (globalPeer peerAId)).2
  have hsame : (added.findClosest zeroId 20).1 = added.findClosestUncached zeroId 20 := by
    have htable := findClosest_new_table
    simp only [CacheOp.Coherent, CacheOp.run, ContactOp.run, htable] at hcoherent
    exact hcoherent
  have hadded : added = storedEmpty.setBucket (peerAId.bucketIndex zeroId)
      (.push (.new (peerAId.bucketIndex zeroId) 0) 0 (globalPeer peerAId)) :=
    RoutingTable.tryInsert_global (show peerAId ≠ zeroId by decide) rfl List.not_mem_nil
      (by decide : 0 < kSize)
  have hcached : (added.findClosest zeroId 20).1 = [] := by
    rw [hadded]
    rfl
  have hstored : storedEmpty.Valid := initial_zero.valid.of_buckets_eq rfl rfl
  have hvalid : added.Valid := (RoutingTable.tryInsert_changed _ _ _ _ hstored).valid hstored
  have hmem : globalPeer peerAId ∈ added.getAllContacts := by
    refine RoutingTable.mem_getAllContacts.mpr ⟨peerAId.bucketIndex zeroId, ?_⟩
    rw [hadded]
    simp [RoutingTable.setBucket, KBucket.push]
  have hzero : (added.buckets 0).peers = [] := by
    rw [hadded]
    simp only [RoutingTable.setBucket]
    rw [Function.update_of_ne (by decide +kernel)]
    rfl
  have hnearest := (RoutingTable.isNearest_findClosestUncached_iff hvalid zeroId 20).mpr
    (by simp [hzero])
  have hlength := hnearest.length_eq
  rw [← hsame, hcached] at hlength
  have hpos := List.length_pos_of_mem hmem
  simp only [List.length_nil] at hlength
  omega

end Synvoid.Routing
