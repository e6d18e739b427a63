import Synvoid.Framework.KeyedTable
import Synvoid.Framework.Transition
import Synvoid.Mesh.DhtRecord
import Mathlib.Data.Prod.Lex
import Mathlib.Data.String.Basic

/-! # The record store

    Model of `RecordStoreManager` (`dht/record_store.rs`,
    `dht/record_store_crud.rs`): admission of records, the store of a global
    node, the cache of an edge node, reads, and the synchronization of global
    nodes.

    * An operation takes the state and the time, and returns the state after
      it. The clock is read once per operation.
    * The verdicts of the rate limiter, the stake manager, the capability
      verifier and the canonical trust reader are inputs.
    * The Merkle tree, the metrics and the network are not modelled here.
-/

namespace Synvoid.Mesh

open Synvoid.Framework

/-! ## Section 1: Data model -/

structure DhtRecordEntry where
  record : DhtRecord
  localOrigin : Bool
  version : Nat
  deriving DecidableEq

/-- `record_shard_index`: the djb2 hash of the key, modulo the number of
    shards. -/
def recordShardIndex (key : String) : Nat :=
  ((asBytes key).foldl (fun hash byte => (hash * 33 + byte.toNat) % 18446744073709551616) 5381) % 64

/-- The order in which the shards, and the keys of each shard, are visited. -/
def visitOrder (k k' : String) : Prop :=
  toLex (recordShardIndex k, k) ≤ toLex (recordShardIndex k', k')

instance : DecidableRel visitOrder := fun k k' =>
  inferInstanceAs (Decidable (toLex (recordShardIndex k, k) ≤ toLex (recordShardIndex k', k')))

/-- The records by their keys. -/
abbrev ShardedRecordStore := KeyedTable (fun entry : DhtRecordEntry => entry.record.key)

def ShardedRecordStore.values (records : ShardedRecordStore) : List DhtRecordEntry :=
  KeyedTable.values records visitOrder

/-- The first entry of the first shard that has one. -/
def ShardedRecordStore.front (records : ShardedRecordStore) : Option DhtRecordEntry :=
  records.values.head?

structure RecordStoreConfig where
  enabled : Bool
  edgeCacheEnabled : Bool
  edgeCacheMaxEntries : Nat
  edgeCacheTtlSecs : Nat
  edgeWriteEnabled : Bool

def RecordStoreConfig.default : RecordStoreConfig :=
  { enabled := true
    edgeCacheEnabled := true
    edgeCacheMaxEntries := 1000
    edgeCacheTtlSecs := 300
    edgeWriteEnabled := false }

structure DhtAccessControl where
  requireGlobalForPrivileged : Bool
  allowedKeysForEdge : List String
  selfOnlyKeys : List String
  authorizedGenesisKeys : List String
  minReputationForWrite : Int

/-- `DhtAccessControl::new`, with the settings of the configuration. -/
def DhtAccessControl.new (dhtAccessForEdge : Option (List String))
    (authorizedGenesisKeys : List String) (minReputationForDhtWrite : Option Int) :
    DhtAccessControl :=
  { requireGlobalForPrivileged := true
    allowedKeysForEdge := dhtAccessForEdge.getD ["upstream:", "node_info:", "global_node_pubkey:",
      "node_health:", "node_load:", "verified_upstream:"]
    selfOnlyKeys := ["node_health:", "node_load:", "capability_attestation:"]
    authorizedGenesisKeys
    minReputationForWrite := minReputationForDhtWrite.getD 30 }

/-- A signing key: `sign` is the Ed25519 signature, or the bytes of the
    hybrid one if there is an ML-DSA key. -/
structure MeshMessageSigner where
  sign : Bytes → Bytes
  publicKey : String

structure RecordSigner where
  meshSigner : Option MeshMessageSigner

/-- The fixed part of a node. -/
structure RecordStoreManager where
  config : RecordStoreConfig
  nodeId : String
  isGlobalNode : Bool
  accessControl : DhtAccessControl
  capabilityVerifier : Option ((nodeId key : String) → Bool)

structure RecordStoreState where
  recordSigner : Option RecordSigner
  localVersion : Nat
  records : ShardedRecordStore
  diskStore : Option ShardedRecordStore
  pendingAnnounces : List DhtRecord

/-- The state of a new manager. -/
def RecordStoreState.new (diskStore : Option ShardedRecordStore) : RecordStoreState :=
  { recordSigner := none
    localVersion := 1
    records := .empty
    diskStore
    pendingAnnounces := [] }

/-- What an operation reads from the routing state: the verdicts of the rate
    limiter (`is_allowed`) and of the stake manager (`can_write_dht`). -/
structure RoutingState where
  rateLimiter : Option (String → Bool)
  stakeManager : Option (String → Bool)

/-- A global node with the default settings. -/
def globalNode (nodeId : String) : RecordStoreManager :=
  { config := .default
    nodeId
    isGlobalNode := true
    accessControl := .new none [] none
    capabilityVerifier := none }

def maxPendingAnnounces : Nat := 10000

/-! ## Section 2: Access control -/

def DhtAccessControl.canAccess (ac : DhtAccessControl) (key : String) (isGlobalNode : Bool) :
    Bool :=
  isGlobalNode || ac.allowedKeysForEdge.any fun start => start.toList.isPrefixOf key.toList

def DhtAccessControl.isSelfOnly (ac : DhtAccessControl) (key : String) : Bool :=
  ac.selfOnlyKeys.any fun start => start.toList.isPrefixOf key.toList

def DhtAccessControl.canStore (ac : DhtAccessControl) (key : String)
    (isGlobalNode isSelfRecord : Bool) (reputation : Int) : Bool :=
  if isGlobalNode then true
  else if (DhtKey.fromStr key).isRaftGlobal then false
  else if ac.isSelfOnly key && !isSelfRecord then false
  else if reputation < ac.minReputationForWrite then false
  else ac.canAccess key isGlobalNode

def DhtAccessControl.requiresImmutabilityTrustAnchor (key : String) : Bool :=
  (DhtKey.fromStr key).isRaftGlobal

/-- The signer is one of the configured genesis keys. -/
def DhtAccessControl.signedByGenesisKey (ac : DhtAccessControl) (record : DhtRecord) : Bool :=
  match record.signerPublicKey with
  | none => false
  | some signerPk => !ac.authorizedGenesisKeys.isEmpty && ac.authorizedGenesisKeys.contains signerPk

def RecordStoreManager.canCacheOnEdge (node : RecordStoreManager) (key : String) : Bool :=
  if !node.config.edgeCacheEnabled then false
  else (DhtKey.fromStr key).isPublic

/-! ## Section 3: Replacement -/

/-- What records under one key are compared by: later timestamp, then larger
    sequence number, then larger source. -/
def DhtRecord.rank (record : DhtRecord) : Nat ×ₗ Nat ×ₗ String :=
  toLex (record.timestamp, toLex (record.sequenceNumber, record.sourceNodeId))

/-- The key's records are of a type that is never replaced. -/
def isImmutableKey (key : String) : Bool :=
  (DhtKey.fromStr key).toSignedRecordType.any SignedRecordType.isImmutable

/-- `should_replace`, of `store_record_global` and of `apply_sync`, given the
    entry under the record's key. -/
def shouldReplace (existing : Option DhtRecordEntry) (record : DhtRecord) : Bool :=
  if isImmutableKey record.key then existing.isNone
  else
    match existing with
    | none => true
    | some existingEntry => existingEntry.record.rank < record.rank

/-! ## Section 4: The store of a global node -/

section operations
variable (prim : Primitives)

/-- The signature is there, with a signer, and verifies for the key's type. -/
def signedForKey (record : DhtRecord) : Bool :=
  if record.signature.isEmpty then false
  else if !(record.signerPublicKey.any fun s => !s.isEmpty) then false
  else verifyDhtRecordSignatureForKey prim record (recordTypeOfKey record.key)

/-- The checks of `store_record_global`, in its order. -/
def admittedGlobal (node : RecordStoreManager) (now : Nat) (record : DhtRecord)
    (isLocalRecord : Bool) : Bool :=
  if (DhtKey.fromStr record.key).isRaftGlobal then false
  else if now > saturatingAdd record.timestamp record.ttlSeconds then false
  else if !validateRecordTimestamp record.timestamp now then false
  -- not reached: the keys that need a trust anchor are those owned by Raft
  else if DhtAccessControl.requiresImmutabilityTrustAnchor record.key && !isLocalRecord &&
    !node.accessControl.signedByGenesisKey record then false
  else if !isLocalRecord then signedForKey prim record
  -- the signature of a local record is not looked at
  else true

def RecordSigner.sign (signer : RecordSigner) (record : SignedDhtRecord) : Option Bytes :=
  signer.meshSigner.map fun s => s.sign (record.getSignableContent prim)

def RecordSigner.getVerifyingKey (signer : RecordSigner) : Option String :=
  signer.meshSigner.map MeshMessageSigner.publicKey

/-- A local record is signed by the node itself. What is signed is a new
    record of type `NodeInfo`. -/
def signLocalRecord (signer : Option RecordSigner) (now : Nat) (record : DhtRecord) : DhtRecord :=
  match signer with
  | none => record
  | some signer =>
      let signedRecord :=
        SignedDhtRecord.new record.key record.value record.sourceNodeId .nodeInfo now
      match signer.sign prim signedRecord with
      | none => record
      | some signature => { record with signature, signerPublicKey := signer.getVerifyingKey }

def queueForAnnounce (state : RecordStoreState) (record : DhtRecord) : RecordStoreState :=
  let pending :=
    if state.pendingAnnounces.length ≥ maxPendingAnnounces then state.pendingAnnounces.drop 1
    else state.pendingAnnounces
  { state with pendingAnnounces := pending ++ [record] }

def maybeQueueForAnnounce (state : RecordStoreState) (record : DhtRecord) : RecordStoreState :=
  let dhtKey := DhtKey.fromStr record.key
  if dhtKey.isPublic && !dhtKey.requiresConfirmation then queueForAnnounce state record else state

/-- The end of `store_record_global`. -/
def insertGlobal (node : RecordStoreManager) (state : RecordStoreState) (record : DhtRecord)
    (isLocalRecord : Bool) : RecordStoreState :=
  -- the version before it is incremented
  let entry : DhtRecordEntry :=
    { record, localOrigin := isLocalRecord, version := state.localVersion }
  let stored :=
    { state with
      records := state.records.insert entry
      localVersion := wrappingAdd state.localVersion 1
      diskStore := if node.isGlobalNode then state.diskStore.map (·.insert entry)
        else state.diskStore }
  maybeQueueForAnnounce stored record

def storeRecordGlobal (node : RecordStoreManager) (now : Nat) (state : RecordStoreState)
    (record : DhtRecord) (isLocalOrigin : Bool) : Bool × RecordStoreState :=
  let isLocalRecord := isLocalOrigin && record.sourceNodeId = node.nodeId
  if !admittedGlobal prim node now record isLocalRecord then (false, state)
  else
    let record :=
      if isLocalRecord then signLocalRecord prim state.recordSigner now record else record
    if !shouldReplace (state.records.get record.key) record then (false, state)
    else (true, insertGlobal node state record isLocalRecord)

/-! ## Section 5: The cache of an edge node -/

/-- The loop that makes room: entries are removed from the front. The fuel is
    the number of entries. -/
def evictIn (maxEntries : Nat) : Nat → ShardedRecordStore → ShardedRecordStore
  | 0, records => records
  | fuel + 1, records =>
      if records.size ≥ maxEntries then
        -- the first key in the order of shards, not the least recently used one
        match records.front with
        | none => records
        | some oldest => evictIn maxEntries fuel (records.erase oldest.record.key)
      else records

def evict (maxEntries : Nat) (records : ShardedRecordStore) : ShardedRecordStore :=
  evictIn maxEntries records.size records

/-- The record as the edge cache keeps it. -/
def cacheTtlRecord (config : RecordStoreConfig) (record : DhtRecord) : DhtRecord :=
  { record with
    sequenceNumber := 0
    ttlSeconds := min config.edgeCacheTtlSecs record.ttlSeconds
    quorumProof := []
    requestId := none }

def storeRecordEdgeCache (node : RecordStoreManager) (now : Nat) (state : RecordStoreState)
    (record : DhtRecord) : Bool × RecordStoreState :=
  if now > wrappingAdd record.timestamp record.ttlSeconds then (false, state)
  else
    -- the record under the key, if there is one, is not compared
    let entry : DhtRecordEntry :=
      { record := cacheTtlRecord node.config record
        localOrigin := false
        version := state.localVersion }
    (true,
      { state with
        records := (evict node.config.edgeCacheMaxEntries state.records).insert entry
        localVersion := wrappingAdd state.localVersion 1 })

/-! ## Section 6: Admission -/

/-- The checks that `store_record_verified_internal` makes on every node. -/
def admittedSigned (node : RecordStoreManager) (routing : RoutingState) (record : DhtRecord)
    (isLocalOrigin : Bool) : Bool :=
  let dhtKey := DhtKey.fromStr record.key
  if !node.config.enabled then false
  else if routing.rateLimiter.any (fun isAllowed => !isAllowed record.sourceNodeId) then false
  else if dhtKey.isRaftGlobal then false
  else if !isLocalOrigin && !dhtKey.remoteWritesAllowed then false
  -- from here on, local records are treated like all others
  else if record.signature.isEmpty then false
  else if !(record.signerPublicKey.any fun s => !s.isEmpty) then false
  else if !verifyDhtRecordSignature prim record then false
  else if !record.verifyContentHash prim then false
  else if routing.stakeManager.any (fun canWriteDht => !canWriteDht record.sourceNodeId) then false
  else true

/-- The checks that decide whether an edge node caches the record. -/
def admittedEdge (node : RecordStoreManager) (record : DhtRecord) (sourceReputation : Int) : Bool :=
  let dhtKey := DhtKey.fromStr record.key
  let isSelfRecord := dhtKey.isSelfRecord node.nodeId
  if node.capabilityVerifier.any (fun verify => !verify record.sourceNodeId record.key) then false
  else if dhtKey.isPrivileged && node.accessControl.requireGlobalForPrivileged then false
  -- without edge writes, only records about the node itself
  else if !node.config.edgeWriteEnabled then node.canCacheOnEdge record.key && isSelfRecord
  else if !node.accessControl.canStore record.key false isSelfRecord sourceReputation then false
  else if node.accessControl.isSelfOnly record.key && !isSelfRecord then false
  else node.canCacheOnEdge record.key

def storeRecordVerifiedInternal (node : RecordStoreManager) (routing : RoutingState) (now : Nat)
    (state : RecordStoreState) (record : DhtRecord) (sourceReputation : Int)
    (isLocalOrigin : Bool) : Bool × RecordStoreState :=
  if !admittedSigned prim node routing record isLocalOrigin then (false, state)
  else if node.isGlobalNode then storeRecordGlobal prim node now state record isLocalOrigin
  else if admittedEdge node record sourceReputation then storeRecordEdgeCache node now state record
  else (false, state)

def storeLocalRecord (node : RecordStoreManager) (routing : RoutingState) (now : Nat)
    (state : RecordStoreState) (record : DhtRecord) (sourceReputation : Int) :
    Bool × RecordStoreState :=
  storeRecordVerifiedInternal prim node routing now state record sourceReputation true

/-! ### Records from other nodes -/

inductive SourceClassification where
  | localNode | globalNode | edgeNode | unknown
  deriving DecidableEq

inductive IngressPath where
  | announce | snapshotSync | syncResponse | antiEntropy | quorumCommit | push | localCreate
  deriving DecidableEq

inductive DhtIngressGateOutcome where
  | accepted | rejected | deferred | notConfigured
  deriving DecidableEq

/-- The fields of the ingress context that decide something;
    `policyContext` is `check_dht_ingress_authority` at the attached
    context. -/
structure DhtRecordIngressContext where
  sourceNodeId : String
  sourceClassification : SourceClassification
  path : IngressPath
  requiresQuorumProof : Bool
  isImmutableKey : Bool
  isLocalOrigin : Bool
  policyContext : Option ((key : DhtKey) → (signerNodeId : String) → DhtIngressGateOutcome)

inductive DhtRecordVerificationError where
  | invalidContentHash
  | timestampTooFarInFuture
  | expired
  | missingSignature
  | invalidSignature
  | missingSignerPublicKey
  | missingQuorumProof
  deriving DecidableEq

def DhtRecord.verifyForIngress (record : DhtRecord) (ctx : DhtRecordIngressContext) (now : Nat) :
    Except DhtRecordVerificationError Unit :=
  if !record.verifyContentHash prim then .error .invalidContentHash
  else if !validateRecordTimestamp record.timestamp now then .error .timestampTooFarInFuture
  else if record.isExpired now then .error .expired
  else if ctx.sourceClassification ≠ .localNode && record.signature.isEmpty then
    .error .missingSignature
  else if ctx.sourceClassification ≠ .localNode && !verifyDhtRecordSignature prim record then
    .error .invalidSignature
  else if (ctx.isImmutableKey || DhtAccessControl.requiresImmutabilityTrustAnchor record.key) &&
    record.signerPublicKey.isNone then .error .missingSignerPublicKey
  else if ctx.requiresQuorumProof && record.quorumProof.isEmpty then .error .missingQuorumProof
  else .ok ()

/-- Only pushed and announced records of other nodes are checked. -/
def checkRecordIngressCanonicalGate (record : DhtRecord) (ctx : DhtRecordIngressContext) : Bool :=
  if ctx.isLocalOrigin then true
  else if ctx.path ≠ .push ∧ ctx.path ≠ .announce then true
  else
    match ctx.policyContext with
    | none => true
    | some checkAuthority =>
        match checkAuthority (DhtKey.fromStr record.key) ctx.sourceNodeId with
        | .accepted | .notConfigured => true
        | .rejected | .deferred => false

def storeRecordFromIngress (node : RecordStoreManager) (routing : RoutingState) (now : Nat)
    (state : RecordStoreState) (record : DhtRecord) (ctx : DhtRecordIngressContext)
    (sourceReputation : Int) : Bool × RecordStoreState :=
  if !node.config.enabled then (false, state)
  else
    match record.verifyForIngress prim ctx now with
    | .error _ => (false, state)
    | .ok () =>
        if !checkRecordIngressCanonicalGate record ctx then (false, state)
        else
          storeRecordVerifiedInternal prim node routing now state record sourceReputation
            ctx.isLocalOrigin

end operations

/-! ## Section 7: Reads and synchronization -/

/-- Reads treat a record as expired from `timestamp + ttl_seconds` on. -/
def DhtRecord.expiredForRead (record : DhtRecord) (now : Nat) : Bool :=
  now ≥ wrappingAdd record.timestamp record.ttlSeconds

/-- `DiskRecordStore::get`: the 64-bit columns are signed, and a negative one
    cannot be read back. -/
def diskGet (diskStore : ShardedRecordStore) (key : String) : Option DhtRecordEntry :=
  (diskStore.get key).filter fun entry =>
    0 ≤ asI64 entry.record.timestamp && 0 ≤ asI64 entry.record.sequenceNumber &&
      0 ≤ asI64 entry.record.ttlSeconds

/-- The end of `get_record`: a global node looks on the disk. (The source takes the lock of
    `record_state` for writing while it still holds it for reading, and so does not come back
    where the record is found; here it does.) -/
def getFromDisk (node : RecordStoreManager) (now : Nat) (state : RecordStoreState) (key : String) :
    Option DhtRecord × RecordStoreState :=
  if node.isGlobalNode then
    match state.diskStore.bind (diskGet · key) with
    | none => (none, state)
    | some entry =>
        if entry.record.expiredForRead now then (none, state)
        else (some entry.record, { state with records := state.records.insert entry })
  else (none, state)

/-- An edge node takes a record that it reads out and puts it in again. -/
def getRecord (node : RecordStoreManager) (now : Nat) (state : RecordStoreState) (key : String) :
    Option DhtRecord × RecordStoreState :=
  if !node.config.enabled then (none, state)
  else
    match state.records.get key with
    | none => getFromDisk node now state key
    | some entry =>
        if !entry.record.expiredForRead now then
          (some entry.record,
            if node.isGlobalNode then state
            else { state with records := (state.records.erase key).insert entry })
        -- what is on the disk may still be live
        else getFromDisk node now { state with records := state.records.erase key } key

def cleanupExpired (now : Nat) (state : RecordStoreState) : RecordStoreState :=
  let keysToRemove := (state.records.values.filter fun entry => entry.record.expiredForRead now).map
    fun entry => entry.record.key
  { state with records := keysToRemove.foldl KeyedTable.erase state.records }

def getRecordsForSync (now : Nat) (state : RecordStoreState) (fromVersion : Nat) : List DhtRecord :=
  (state.records.values.filter fun entry =>
    entry.version > fromVersion && !entry.record.expiredForRead now).map DhtRecordEntry.record

/-- The requester sends its own version. -/
def createSyncRequest (node : RecordStoreManager) (state : RecordStoreState) : Option Nat :=
  if !node.config.enabled || !node.isGlobalNode then none else some state.localVersion

def createSyncResponse (node : RecordStoreManager) (now : Nat) (state : RecordStoreState)
    (fromVersion : Nat) : Option (List DhtRecord) :=
  if !node.config.enabled || !node.isGlobalNode then none
  else some (getRecordsForSync now state fromVersion)

/-- The checks of `apply_sync` on one record. -/
def admittedSync (node : RecordStoreManager) (now : Nat) (record : DhtRecord) : Bool :=
  if now > saturatingAdd record.timestamp record.ttlSeconds then false
  else if !validateRecordTimestamp record.timestamp now then false
  else if DhtAccessControl.requiresImmutabilityTrustAnchor record.key &&
    !node.accessControl.signedByGenesisKey record then false
  else true

/-- The loop body of `apply_sync`, with the version the new entries get and
    the flag `changed`. -/
def applySyncRecord (node : RecordStoreManager) (now version : Nat)
    (acc : ShardedRecordStore × Bool) (record : DhtRecord) : ShardedRecordStore × Bool :=
  if !admittedSync node now record then acc
  else if shouldReplace (acc.1.get record.key) record then
    (acc.1.insert { record, localOrigin := false, version }, true)
  else acc

def applySync (node : RecordStoreManager) (now : Nat) (state : RecordStoreState)
    (records : List DhtRecord) : RecordStoreState :=
  -- all records of a batch get the same version
  let (records, changed) :=
    records.foldl (applySyncRecord node now (wrappingAdd state.localVersion 1))
      (state.records, false)
  { state with
    records
    localVersion := if changed then wrappingAdd state.localVersion 1 else state.localVersion }

/-! ## Section 8: Both ways to store a record are offers -/

/-- What a check of records says about entries, together with the rule of
    replacement. -/
def acceptEntry (admitted : DhtRecord → Bool) (existing : Option DhtRecordEntry)
    (entry : DhtRecordEntry) : Bool :=
  admitted entry.record && shouldReplace existing entry.record

@[simp] theorem records_maybeQueueForAnnounce (state : RecordStoreState) (record : DhtRecord) :
    (maybeQueueForAnnounce state record).records = state.records := by
  unfold maybeQueueForAnnounce
  by_cases h : ((DhtKey.fromStr record.key).isPublic &&
      !(DhtKey.fromStr record.key).requiresConfirmation) = true
  · rw [if_pos h]
    rfl
  · rw [if_neg h]

@[simp] theorem records_insertGlobal (node : RecordStoreManager) (state : RecordStoreState)
    (record : DhtRecord) (isLocalRecord : Bool) :
    (insertGlobal node state record isLocalRecord).records =
      state.records.insert ⟨record, isLocalRecord, state.localVersion⟩ := by
  unfold insertGlobal
  rw [records_maybeQueueForAnnounce]

/-- `storeRecordGlobal` for a record of another node. -/
theorem storeRecordGlobal_remote (prim : Primitives) (node : RecordStoreManager) (now : Nat)
    (state : RecordStoreState) (record : DhtRecord) :
    storeRecordGlobal prim node now state record false =
      if admittedGlobal prim node now record false &&
        shouldReplace (state.records.get record.key) record then
        (true, insertGlobal node state record false)
      else (false, state) := by
  unfold storeRecordGlobal
  simp only [Bool.false_and, Bool.false_eq_true, if_false]
  cases hadm : admittedGlobal prim node now record false <;>
    cases hrep : shouldReplace (state.records.get record.key) record <;> simp

/-- A record of another node is offered to the store. -/
theorem records_storeRecordGlobal_remote (prim : Primitives) (node : RecordStoreManager) (now : Nat)
    (state : RecordStoreState) (record : DhtRecord) :
    (storeRecordGlobal prim node now state record false).2.records =
      state.records.offer (acceptEntry fun r => admittedGlobal prim node now r false)
        ⟨record, false, state.localVersion⟩ := by
  rw [storeRecordGlobal_remote]
  unfold KeyedTable.offer acceptEntry
  by_cases h : (admittedGlobal prim node now record false &&
      shouldReplace (state.records.get record.key) record) = true
  · rw [if_pos h, if_pos h, records_insertGlobal]
  · rw [if_neg h, if_neg h]

/-- A stored local record is the signed one. -/
theorem snd_storeRecordGlobal_local {prim : Primitives} {node : RecordStoreManager} {now : Nat}
    {state : RecordStoreState} {record : DhtRecord} (hlocal : record.sourceNodeId = node.nodeId)
    (hstored : (storeRecordGlobal prim node now state record true).1 = true) :
    (storeRecordGlobal prim node now state record true).2 =
      insertGlobal node state (signLocalRecord prim state.recordSigner now record) true := by
  have hown : (true && decide (record.sourceNodeId = node.nodeId)) = true := by simp [hlocal]
  unfold storeRecordGlobal at hstored ⊢
  simp only [hown, if_true] at hstored ⊢
  split_ifs at hstored ⊢
  rfl

/-- One record of a synchronization is offered to the store. -/
theorem fst_applySyncRecord (node : RecordStoreManager) (now version : Nat)
    (acc : ShardedRecordStore × Bool) (record : DhtRecord) :
    (applySyncRecord node now version acc record).1 =
      acc.1.offer (acceptEntry (admittedSync node now)) ⟨record, false, version⟩ := by
  unfold applySyncRecord KeyedTable.offer acceptEntry
  cases admittedSync node now record with
  | false => rfl
  | true => cases shouldReplace (acc.1.get record.key) record <;> rfl

theorem fst_foldl_applySyncRecord (node : RecordStoreManager) (now version : Nat)
    (records : List DhtRecord) (acc : ShardedRecordStore × Bool) :
    (records.foldl (applySyncRecord node now version) acc).1 =
      (records.map fun record => (⟨record, false, version⟩ : DhtRecordEntry)).foldl
        (KeyedTable.offer (acceptEntry (admittedSync node now))) acc.1 := by
  induction records generalizing acc with
  | nil => rfl
  | cons record records ih =>
    rw [List.foldl_cons, ih, fst_applySyncRecord]
    rfl

theorem records_applySync (node : RecordStoreManager) (now : Nat) (state : RecordStoreState)
    (records : List DhtRecord) :
    (applySync node now state records).records =
      (records.map fun record =>
        (⟨record, false, wrappingAdd state.localVersion 1⟩ : DhtRecordEntry)).foldl
          (KeyedTable.offer (acceptEntry (admittedSync node now))) state.records :=
  fst_foldl_applySyncRecord node now _ records (state.records, false)

/-! ## Section 9: Histories of a global node -/

inductive StoreOp where
  | storeRecordGlobal (record : DhtRecord) (isLocalOrigin : Bool) (now : Nat)
  | applySync (records : List DhtRecord) (now : Nat)

def StoreOp.run (prim : Primitives) (node : RecordStoreManager) (state : RecordStoreState) :
    StoreOp → RecordStoreState
  | .storeRecordGlobal record isLocalOrigin now =>
      (Mesh.storeRecordGlobal prim node now state record isLocalOrigin).2
  | .applySync records now => Mesh.applySync node now state records

/-- The histories of a node from a new store, with or without a disk store and
    a record signer. -/
def storeSystem (prim : Primitives) (node : RecordStoreManager) :
    System RecordStoreState StoreOp where
  init := fun s => ∃ diskStore recordSigner,
    s = { RecordStoreState.new diskStore with recordSigner }
  step := fun s op s' => s' = op.run prim node s

end Synvoid.Mesh
