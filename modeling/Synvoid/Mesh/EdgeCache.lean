import Synvoid.Mesh.RecordStore

/-! # The cache of an edge node over whole runs

    An edge node caches records that it receives (`store_record_edge_cache`).
    It does not compare a record with the one it replaces, and it caches a
    rewritten copy: sequence number 0, and a lifetime of at most
    `edge_cache_ttl_secs`.

    So a replay of an older record is taken, and what `get_record` returns
    does not verify in general (`older_record_replaces_newer`). Both cannot
    happen in runs in which every record has sequence number 0 and a short
    enough lifetime, and has no lower rank than the unexpired one that it
    replaces (`edge_cache_keeps_newest`).
-/

namespace Synvoid.Mesh

open Synvoid.Framework

/-! ## Section 1: Runs -/

/-- A record from another node, and what else decides about it. -/
structure Ingress where
  record : DhtRecord
  ctx : DhtRecordIngressContext
  sourceReputation : Int
  routing : RoutingState
  now : Nat

inductive EdgeOp where
  | ingress (i : Ingress)
  | getRecord (key : String) (now : Nat)
  | cleanupExpired (now : Nat)

def Ingress.store (prim : Primitives) (node : RecordStoreManager) (state : RecordStoreState)
    (i : Ingress) : Bool × RecordStoreState :=
  storeRecordFromIngress prim node i.routing i.now state i.record i.ctx i.sourceReputation

/-- A record is a step of the run if it is accepted. -/
def EdgeOp.next (prim : Primitives) (node : RecordStoreManager) (state : RecordStoreState) :
    EdgeOp → Option RecordStoreState
  | .ingress i => if (i.store prim node state).1 then some (i.store prim node state).2 else none
  | .getRecord key now => some (Mesh.getRecord node now state key).2
  | .cleanupExpired now => some (Mesh.cleanupExpired now state)

/-- The runs of a node from a new store. -/
def edgeSystem (prim : Primitives) (node : RecordStoreManager)
    (diskStore : Option ShardedRecordStore) : System RecordStoreState EdgeOp :=
  System.ofNext (.new diskStore) (EdgeOp.next prim node)

/-- The last record that was accepted for a key, as its publisher signed
    it. -/
def lastAccepted (key : String) (tr : List (RecordStoreState × EdgeOp)) : Option DhtRecord :=
  tr.foldl (fun last step =>
    match step.2 with
    | .ingress i => if i.record.key = key then some i.record else last
    | _ => last) none

/-- No accepted record has a lower rank than the last one accepted for its
    key, if that one is still cached, unexpired and not evicted to make
    room. -/
def NoRollback (node : RecordStoreManager) (tr : List (RecordStoreState × EdgeOp)) : Prop :=
  ∀ before after s i, tr = before ++ (s, .ingress i) :: after →
    ∀ cached, (evict node.config.edgeCacheMaxEntries s.records).get i.record.key = some cached →
      cached.record.expiredForRead i.now = false →
      ∀ published, lastAccepted i.record.key before = some published →
        published.rank ≤ i.record.rank

/-- Every record that a read returns was accepted, and verifies if it did
    then. -/
def ReadsVerify (prim : Primitives) (node : RecordStoreManager)
    (tr : List (RecordStoreState × EdgeOp)) : Prop :=
  ∀ before after s key now, tr = before ++ (s, .getRecord key now) :: after →
    ∀ returned, (getRecord node now s key).1 = some returned →
      ∃ published, lastAccepted key before = some published ∧
        (verifyDhtRecordSignature prim published = true →
          verifyDhtRecordSignature prim returned = true)

/-- The record is cached as it was signed, and is no older than an unexpired
    one that it replaces. -/
def SafeToCache (node : RecordStoreManager) (s : RecordStoreState) : EdgeOp → Prop
  | .ingress i =>
      i.record.sequenceNumber = 0 ∧ i.record.ttlSeconds ≤ node.config.edgeCacheTtlSecs ∧
      ∀ cached, (evict node.config.edgeCacheMaxEntries s.records).get i.record.key = some cached →
        cached.record.expiredForRead i.now = false → cached.record.rank ≤ i.record.rank
  | _ => True

/-! ## Section 2: What a step does to the cache -/

theorem get_evictIn {maxEntries fuel : Nat} {records : ShardedRecordStore} {key : String}
    {entry : DhtRecordEntry} (h : (evictIn maxEntries fuel records).get key = some entry) :
    records.get key = some entry := by
  induction fuel generalizing records with
  | zero => exact h
  | succ fuel ih =>
    unfold evictIn at h
    split at h
    · split at h
      · exact h
      · exact KeyedTable.get_of_get_erase (ih h)
    · exact h

theorem get_evict {maxEntries : Nat} {records : ShardedRecordStore} {key : String}
    {entry : DhtRecordEntry} (h : (evict maxEntries records).get key = some entry) :
    records.get key = some entry :=
  get_evictIn h

theorem get_of_front {records : ShardedRecordStore} {oldest : DhtRecordEntry}
    (h : records.front = some oldest) : records.get oldest.record.key = some oldest :=
  KeyedTable.mem_values.mp (List.mem_of_mem_head? h)

theorem size_of_front_eq_none {records : ShardedRecordStore} (h : records.front = none) :
    records.size = 0 := by
  unfold ShardedRecordStore.front at h
  rw [List.head?_eq_none_iff] at h
  rw [← KeyedTable.length_values records visitOrder]
  exact List.length_eq_zero_iff.mpr h

theorem size_evictIn {maxEntries fuel : Nat} {records : ShardedRecordStore}
    (hfuel : records.size ≤ fuel) :
    (evictIn maxEntries fuel records).size ≤ maxEntries - 1 := by
  induction fuel generalizing records with
  | zero =>
    show records.size ≤ _
    omega
  | succ fuel ih =>
    unfold evictIn
    split
    · split
      · next hfront =>
        rw [size_of_front_eq_none hfront]
        exact Nat.zero_le _
      · next oldest hfront =>
        have hsize := KeyedTable.size_erase_of_get (get_of_front hfront)
        exact ih (by omega)
    · omega

/-- The loop makes room: the fuel is enough. -/
theorem size_evict (maxEntries : Nat) (records : ShardedRecordStore) :
    (evict maxEntries records).size ≤ maxEntries - 1 :=
  size_evictIn (Nat.le_refl _)

section steps
variable {prim : Primitives} {node : RecordStoreManager} {state : RecordStoreState}

theorem storeRecordEdgeCache_cases (node : RecordStoreManager) (now : Nat)
    (state : RecordStoreState) (record : DhtRecord) :
    storeRecordEdgeCache node now state record = (false, state) ∨
    storeRecordEdgeCache node now state record =
      (true, { state with
        records := (evict node.config.edgeCacheMaxEntries state.records).insert
          ⟨cacheTtlRecord node.config record, false, state.localVersion⟩
        localVersion := wrappingAdd state.localVersion 1 }) := by
  unfold storeRecordEdgeCache
  split
  · exact Or.inl rfl
  · exact Or.inr rfl

theorem storeRecordVerifiedInternal_cases (hedge : node.isGlobalNode = false)
    (routing : RoutingState) (now : Nat) (record : DhtRecord) (sourceReputation : Int)
    (isLocalOrigin : Bool) :
    storeRecordVerifiedInternal prim node routing now state record sourceReputation isLocalOrigin =
      (false, state) ∨
    storeRecordVerifiedInternal prim node routing now state record sourceReputation isLocalOrigin =
      storeRecordEdgeCache node now state record := by
  unfold storeRecordVerifiedInternal
  simp only [hedge, Bool.false_eq_true, if_false]
  split
  · exact Or.inl rfl
  · split
    · exact Or.inr rfl
    · exact Or.inl rfl

theorem storeRecordFromIngress_cases (routing : RoutingState) (now : Nat) (record : DhtRecord)
    (ctx : DhtRecordIngressContext) (sourceReputation : Int) :
    storeRecordFromIngress prim node routing now state record ctx sourceReputation =
      (false, state) ∨
    storeRecordFromIngress prim node routing now state record ctx sourceReputation =
      storeRecordVerifiedInternal prim node routing now state record sourceReputation
        ctx.isLocalOrigin := by
  unfold storeRecordFromIngress
  split
  · exact Or.inl rfl
  · split
    · exact Or.inl rfl
    · split
      · exact Or.inl rfl
      · exact Or.inr rfl

/-- **What ingress does on an edge node**: nothing, or the record is cached
    in its rewritten form after room was made. -/
theorem Ingress.store_cases (prim : Primitives) (state : RecordStoreState)
    (hedge : node.isGlobalNode = false) (i : Ingress) :
    i.store prim node state = (false, state) ∨
    i.store prim node state =
      (true, { state with
        records := (evict node.config.edgeCacheMaxEntries state.records).insert
          ⟨cacheTtlRecord node.config i.record, false, state.localVersion⟩
        localVersion := wrappingAdd state.localVersion 1 }) := by
  unfold Ingress.store
  rcases storeRecordFromIngress_cases i.routing i.now i.record i.ctx i.sourceReputation with h | h
  · exact Or.inl h
  · rw [h]
    rcases storeRecordVerifiedInternal_cases hedge i.routing i.now i.record i.sourceReputation
      i.ctx.isLocalOrigin with h | h
    · exact Or.inl h
    · rw [h]
      exact storeRecordEdgeCache_cases node i.now state i.record

/-- The cache after an accepted record. -/
theorem records_of_accepted (hedge : node.isGlobalNode = false) {i : Ingress}
    {state' : RecordStoreState} (h : EdgeOp.next prim node state (.ingress i) = some state') :
    state'.records = (evict node.config.edgeCacheMaxEntries state.records).insert
      ⟨cacheTtlRecord node.config i.record, false, state.localVersion⟩ := by
  simp only [EdgeOp.next] at h
  rcases i.store_cases prim state hedge with hstore | hstore
  · rw [hstore] at h
    cases h
  · rw [hstore] at h
    obtain rfl := Option.some.inj h
    rfl

/-- On an edge node, a read returns what is cached. -/
theorem get_of_getRecord (hedge : node.isGlobalNode = false) {now : Nat} {key : String}
    {returned : DhtRecord} (h : (getRecord node now state key).1 = some returned) :
    ∃ entry, state.records.get key = some entry ∧ entry.record = returned := by
  unfold getRecord getFromDisk at h
  simp only [hedge, Bool.false_eq_true, if_false] at h
  split at h
  · cases h
  · split at h
    · cases h
    · next entry hget =>
      split at h
      · exact ⟨entry, hget, Option.some.inj h⟩
      · cases h

/-- Reads and clean-ups add nothing to the cache. -/
theorem get_of_get_getRecord (hedge : node.isGlobalNode = false) {now : Nat} {key key' : String}
    {entry : DhtRecordEntry} (h : (getRecord node now state key).2.records.get key' = some entry) :
    state.records.get key' = some entry := by
  unfold getRecord getFromDisk at h
  simp only [hedge, Bool.false_eq_true, if_false] at h
  split at h
  · exact h
  · split at h
    · exact h
    · next cached hget =>
      split at h
      · rw [KeyedTable.get_insert] at h
        split at h
        · next hkey =>
          obtain rfl := Option.some.inj h
          rwa [hkey, KeyedTable.keyOf_of_get hget]
        · exact KeyedTable.get_of_get_erase h
      · exact KeyedTable.get_of_get_erase h

theorem size_getRecord_le (hedge : node.isGlobalNode = false) (now : Nat) (key : String) :
    (getRecord node now state key).2.records.size ≤ state.records.size := by
  unfold getRecord getFromDisk
  simp only [hedge, Bool.false_eq_true, if_false]
  split
  · exact Nat.le_refl _
  · split
    · exact Nat.le_refl _
    · next cached hget =>
      split
      · have herase := KeyedTable.size_erase_of_get hget
        have hinsert := KeyedTable.size_insert_le (state.records.erase key) cached
        show KeyedTable.size (KeyedTable.insert _ _) ≤ _
        omega
      · exact KeyedTable.size_erase_le state.records key

theorem get_of_get_cleanupExpired {now : Nat} {key : String} {entry : DhtRecordEntry}
    (h : (cleanupExpired now state).records.get key = some entry) :
    state.records.get key = some entry :=
  KeyedTable.get_of_get_foldl_erase h

end steps

/-! ## Section 3: Where cached records come from -/

theorem lastAccepted_append (key : String) (tr : List (RecordStoreState × EdgeOp))
    (s : RecordStoreState) (op : EdgeOp) :
    lastAccepted key (tr ++ [(s, op)]) =
      match op with
      | .ingress i => if i.record.key = key then some i.record else lastAccepted key tr
      | _ => lastAccepted key tr := by
  unfold lastAccepted
  rw [List.foldl_append]
  rfl

/-- Every cached record is the rewritten form of the last one accepted for
    its key. -/
theorem cached_of_exec {prim : Primitives} {node : RecordStoreManager}
    {diskStore : Option ShardedRecordStore} (hedge : node.isGlobalNode = false)
    {tr : List (RecordStoreState × EdgeOp)} {state : RecordStoreState}
    (hexec : (edgeSystem prim node diskStore).Exec tr state) {key : String}
    {entry : DhtRecordEntry} (hget : state.records.get key = some entry) :
    ∃ published, lastAccepted key tr = some published ∧
      entry.record = cacheTtlRecord node.config published := by
  revert key entry
  refine System.Exec.history (fun tr state => ∀ {key : String} {entry : DhtRecordEntry},
    state.records.get key = some entry → ∃ published, lastAccepted key tr = some published ∧
      entry.record = cacheTtlRecord node.config published) ?_ ?_ hexec
  · intro s hs key entry hget
    obtain rfl : s = .new diskStore := hs
    cases hget
  · intro tr s op s' ih hstep key entry hget
    rw [lastAccepted_append]
    cases op with
    | ingress i =>
      -- the entry is the new one, or one that was there and was not evicted
      rw [records_of_accepted hedge hstep, KeyedTable.get_insert] at hget
      split at hget
      · next hkey =>
        obtain rfl := Option.some.inj hget
        exact ⟨i.record, if_pos hkey.symm, rfl⟩
      · next hkey =>
        obtain ⟨published, hlast, hentry⟩ := ih (get_evict hget)
        exact ⟨published, (if_neg (Ne.symm hkey)).trans hlast, hentry⟩
    | getRecord key' now =>
      obtain rfl := Option.some.inj hstep
      exact ih (get_of_get_getRecord hedge hget)
    | cleanupExpired now =>
      obtain rfl := Option.some.inj hstep
      exact ih (get_of_get_cleanupExpired hget)

/-- **The cache stays within its bound**: it never has more than
    `edge_cache_max_entries` entries, or one if that is zero. -/
theorem edge_cache_bounded {prim : Primitives} {node : RecordStoreManager}
    {diskStore : Option ShardedRecordStore} (hedge : node.isGlobalNode = false)
    {tr : List (RecordStoreState × EdgeOp)} {state : RecordStoreState}
    (hexec : (edgeSystem prim node diskStore).Exec tr state) :
    state.records.size ≤ max 1 node.config.edgeCacheMaxEntries := by
  refine System.Exec.invariant
    (fun state => state.records.size ≤ max 1 node.config.edgeCacheMaxEntries) ?_ ?_ hexec
  · intro s hs
    obtain rfl : s = .new diskStore := hs
    exact Nat.zero_le _
  · intro s op s' ih hstep
    cases op with
    | ingress i =>
      have hroom := size_evict node.config.edgeCacheMaxEntries s.records
      have hinsert := KeyedTable.size_insert_le (evict node.config.edgeCacheMaxEntries s.records)
        ⟨cacheTtlRecord node.config i.record, false, s.localVersion⟩
      rw [records_of_accepted hedge hstep]
      omega
    | getRecord key now =>
      obtain rfl := Option.some.inj hstep
      exact (size_getRecord_le hedge now key).trans ih
    | cleanupExpired now =>
      obtain rfl := Option.some.inj hstep
      exact (KeyedTable.size_foldl_erase_le s.records _).trans ih

theorem exists_ingress_of_lastAccepted {key : String} {tr : List (RecordStoreState × EdgeOp)}
    {published : DhtRecord} (h : lastAccepted key tr = some published) :
    ∃ s i, (s, EdgeOp.ingress i) ∈ tr ∧ i.record = published := by
  induction tr using List.reverseRecOn with
  | nil => cases h
  | append_singleton tr step ih =>
    obtain ⟨s, op⟩ := step
    rw [lastAccepted_append] at h
    have hrest : lastAccepted key tr = some published →
        ∃ s' i, (s', EdgeOp.ingress i) ∈ tr ++ [(s, op)] ∧ i.record = published := by
      intro hlast
      obtain ⟨s', i, hmem, hrecord⟩ := ih hlast
      exact ⟨s', i, List.mem_append_left _ hmem, hrecord⟩
    cases op with
    | ingress i =>
      by_cases hkey : i.record.key = key
      · simp only [hkey, if_true] at h
        exact ⟨s, i, by simp, Option.some.inj h⟩
      · simp only [hkey, if_false] at h
        exact hrest h
    | getRecord key' now => exact hrest h
    | cleanupExpired now => exact hrest h

/-! ## Section 4: Runs without rollback -/

theorem rank_cacheTtlRecord {config : RecordStoreConfig} {record : DhtRecord}
    (hseq : record.sequenceNumber = 0) : (cacheTtlRecord config record).rank = record.rank := by
  simp [DhtRecord.rank, cacheTtlRecord, hseq]

/-- The rewriting keeps what was signed. -/
theorem verifyDhtRecordSignature_cacheTtlRecord {prim : Primitives} {config : RecordStoreConfig}
    {record : DhtRecord} (hseq : record.sequenceNumber = 0)
    (httl : record.ttlSeconds ≤ config.edgeCacheTtlSecs) :
    verifyDhtRecordSignature prim (cacheTtlRecord config record) =
      verifyDhtRecordSignature prim record := by
  have hsigned : dhtRecordToSignedRecord (cacheTtlRecord config record) =
      dhtRecordToSignedRecord record := by
    simp [dhtRecordToSignedRecord, DhtRecord.toSigned, cacheTtlRecord, hseq, Nat.min_eq_right httl]
  unfold verifyDhtRecordSignature
  rw [hsigned]
  rfl

/-- **No rollback on edge nodes**, and every record read verifies as it did
    when it was accepted, in all runs in which the accepted records have
    sequence number 0 and a lifetime of at most `edge_cache_ttl_secs`, and none
    has a lower rank than the unexpired record that it replaces. -/
theorem edge_cache_keeps_newest (prim : Primitives) (node : RecordStoreManager)
    (diskStore : Option ShardedRecordStore) (hedge : node.isGlobalNode = false)
    {tr : List (RecordStoreState × EdgeOp)} {state : RecordStoreState}
    (hexec : (edgeSystem prim node diskStore).Exec tr state)
    (hsafe : ∀ step ∈ tr, SafeToCache node step.1 step.2) :
    NoRollback node tr ∧ ReadsVerify prim node tr := by
  have hpublished : ∀ before after, tr = before ++ after → ∀ key published,
      lastAccepted key before = some published → published.sequenceNumber = 0 ∧
        published.ttlSeconds ≤ node.config.edgeCacheTtlSecs := by
    intro before after htr key published hlast
    obtain ⟨s, i, hmem, rfl⟩ := exists_ingress_of_lastAccepted hlast
    have hstep := hsafe (s, .ingress i) (by simp [htr, hmem])
    exact ⟨hstep.1, hstep.2.1⟩
  constructor
  · intro before after s i htr cached hcached hlive published hlast
    -- the run up to this step says where the cached record comes from
    have hbefore : (edgeSystem prim node diskStore).Exec before s := (htr ▸ hexec).before
    obtain ⟨published', hlast', hrecord⟩ := cached_of_exec hedge hbefore (get_evict hcached)
    obtain rfl : published' = published := Option.some.inj (hlast'.symm.trans hlast)
    have hstep := hsafe (s, .ingress i) (by simp [htr])
    have hrank := hstep.2.2 cached hcached hlive
    rwa [hrecord, rank_cacheTtlRecord (hpublished before _ htr _ _ hlast).1] at hrank
  · intro before after s key now htr returned hreturned
    have hbefore : (edgeSystem prim node diskStore).Exec before s := (htr ▸ hexec).before
    obtain ⟨entry, hget, rfl⟩ := get_of_getRecord hedge hreturned
    obtain ⟨published, hlast, hrecord⟩ := cached_of_exec hedge hbefore hget
    obtain ⟨hseq, httl⟩ := hpublished before _ htr _ _ hlast
    refine ⟨published, hlast, ?_⟩
    intro hverify
    rw [hrecord, verifyDhtRecordSignature_cacheTtlRecord hseq httl]
    exact hverify

/-! ### The `node_info` of an edge node -/

def edgeNode : RecordStoreManager := { globalNode "e" with isGlobalNode := false }

def edgeNodeInfo (timestamp sequenceNumber : Nat) : DhtRecord :=
  { key := "node_info:e"
    value := []
    timestamp
    sequenceNumber
    ttlSeconds := 60
    sourceNodeId := "e"
    signature := List.replicate 64 255
    signerPublicKey := some zeroKeyBase64
    contentHash := []
    quorumProof := []
    requestId := none }

/-- The record is pushed by the global node `g` at time 1002. -/
def pushed (record : DhtRecord) : Ingress :=
  { record
    ctx :=
      { sourceNodeId := "g"
        sourceClassification := .globalNode
        path := .push
        requiresQuorumProof := false
        isImmutableKey := false
        isLocalOrigin := false
        policyContext := none }
    sourceReputation := 50
    routing := ⟨none, none⟩
    now := 1002 }

/-- Signatures verify for the contents of the given records only. -/
def signedOnly (records : List DhtRecord) : Primitives :=
  emptyValuePrimitives
    { ed25519 := fun _ content _ => (records.map fun record =>
        (dhtRecordToSignedRecord record).getSignableContent acceptAllPrimitives).contains content
      mlDsa := fun _ _ _ => true }

theorem next_ingress_of_accepted {prim : Primitives} {node : RecordStoreManager}
    {state : RecordStoreState} {i : Ingress} (h : (i.store prim node state).1 = true) :
    EdgeOp.next prim node state (.ingress i) = some (i.store prim node state).2 :=
  if_pos h

/-! A record with sequence number 0 is cached, a later one replaces it and is read. -/

def renewalPrimitives : Primitives := signedOnly [edgeNodeInfo 1000 0, edgeNodeInfo 1001 0]

def infoCached : RecordStoreState :=
  ((pushed (edgeNodeInfo 1000 0)).store renewalPrimitives edgeNode (.new none)).2

def infoRenewed : RecordStoreState :=
  ((pushed (edgeNodeInfo 1001 0)).store renewalPrimitives edgeNode infoCached).2

def renewal : List (RecordStoreState × EdgeOp) :=
  [(.new none, .ingress (pushed (edgeNodeInfo 1000 0))),
    (infoCached, .ingress (pushed (edgeNodeInfo 1001 0))),
    (infoRenewed, .getRecord "node_info:e" 1003)]

theorem exec_renewal : (edgeSystem renewalPrimitives edgeNode none).Exec renewal
    (getRecord edgeNode 1003 infoRenewed "node_info:e").2 := by
  have hinit : (edgeSystem renewalPrimitives edgeNode none).Exec [] (.new none) := .nil rfl
  have haccept₁ : ((pushed (edgeNodeInfo 1000 0)).store renewalPrimitives edgeNode
      (.new none)).1 = true := by
    decide +kernel
  have haccept₂ : ((pushed (edgeNodeInfo 1001 0)).store renewalPrimitives edgeNode
      infoCached).1 = true := by
    decide +kernel
  exact ((hinit.snoc (next_ingress_of_accepted haccept₁)).snoc
    (next_ingress_of_accepted haccept₂)).snoc rfl

/-- The earlier record is cached when the later one comes. -/
theorem renewal_newer : ∀ cached ∈
    (evict edgeNode.config.edgeCacheMaxEntries infoCached.records).get "node_info:e",
    cached.record.rank ≤ (edgeNodeInfo 1001 0).rank := by
  decide +kernel

theorem renewal_keeps_newest :
    (getRecord edgeNode 1003 infoRenewed "node_info:e").1.map DhtRecord.timestamp = some 1001 ∧
      NoRollback edgeNode renewal ∧ ReadsVerify renewalPrimitives edgeNode renewal := by
  refine ⟨by decide +kernel, edge_cache_keeps_newest _ edgeNode none rfl exec_renewal ?_⟩
  intro step hstep
  simp only [renewal, List.mem_cons, List.not_mem_nil, or_false] at hstep
  rcases hstep with rfl | rfl | rfl
  · refine ⟨rfl, by decide, ?_⟩
    -- nothing is cached yet
    intro cached hcached
    cases hcached
  · exact ⟨rfl, by decide, fun cached hcached _ => renewal_newer cached hcached⟩
  · trivial

/-- The edge node accepts a later record and then an earlier one, which
    replaces it, and which does not verify when it is read. -/
theorem older_record_replaces_newer :
    let prim := signedOnly [edgeNodeInfo 1001 1, edgeNodeInfo 1000 1]
    ∃ tr state, (edgeSystem prim edgeNode none).Exec tr state ∧
      tr.map Prod.snd = [.ingress (pushed (edgeNodeInfo 1001 1)),
        .ingress (pushed (edgeNodeInfo 1000 1)), .getRecord "node_info:e" 1003] ∧
      ¬ NoRollback edgeNode tr ∧ ¬ ReadsVerify prim edgeNode tr := by
  intro prim
  let later := pushed (edgeNodeInfo 1001 1)
  let earlier := pushed (edgeNodeInfo 1000 1)
  let state₁ := (later.store prim edgeNode (.new none)).2
  let state₂ := (earlier.store prim edgeNode state₁).2
  have hinit : (edgeSystem prim edgeNode none).Exec [] (.new none) := .nil rfl
  have haccept₁ : (later.store prim edgeNode (.new none)).1 = true := by
    decide +kernel
  have haccept₂ : (earlier.store prim edgeNode state₁).1 = true := by
    decide +kernel
  have hread : (edgeSystem prim edgeNode none).step state₂ (.getRecord "node_info:e" 1003)
      (getRecord edgeNode 1003 state₂ "node_info:e").2 :=
    rfl
  have hexec := ((hinit.snoc (next_ingress_of_accepted haccept₁)).snoc
    (next_ingress_of_accepted haccept₂)).snoc hread
  refine ⟨_, _, hexec, rfl, ?_, ?_⟩
  · -- the later record was accepted and is cached when the earlier one comes
    intro h
    have hrank := h [(.new none, .ingress later)] [(state₂, .getRecord "node_info:e" 1003)]
      state₁ earlier rfl ⟨cacheTtlRecord edgeNode.config (edgeNodeInfo 1001 1), false, 1⟩
      (by decide +kernel) (by decide +kernel) (edgeNodeInfo 1001 1) rfl
    revert hrank
    decide +kernel
  · -- the sequence number 1 was signed, and 0 is cached
    intro h
    obtain ⟨published, hlast, hverify⟩ :=
      h [(.new none, .ingress later), (state₁, .ingress earlier)]
      [] state₂ "node_info:e" 1003 rfl (cacheTtlRecord edgeNode.config (edgeNodeInfo 1000 1))
      (by decide +kernel)
    obtain rfl : edgeNodeInfo 1000 1 = published := Option.some.inj hlast
    revert hverify
    decide +kernel

end Synvoid.Mesh
