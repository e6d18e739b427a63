import Synvoid.Mesh.MerkleTree
import Synvoid.Mesh.RecordStore

/-! # The root that a node advertises

    A global node keeps a Merkle tree beside its records and advertises the
    root. Storing a record updates the tree (`update_merkle_incremental`), and
    a synchronization rebuilds it (`compute_merkle_tree`). A record that is
    removed, that expires, or that a read brings back from the disk changes
    the records only: `remove_merkle_key` has no caller.

    So the root is out of date after a removal (`removed_record_in_root`). It
    is the root of the records in every run without such a step
    (`advertised_root_current`), and two such nodes with the same records
    advertise the same root.
-/

namespace Synvoid.Mesh

open Synvoid.Framework

/-! ## Section 1: The record store with its tree -/

structure AdvertisedState where
  store : RecordStoreState
  merkleTree : Option MerkleTree

/-- The keys and values of the records (`record_map`). -/
def recordMap (records : ShardedRecordStore) : Table String Bytes :=
  .collect (records.values.map fun entry => (entry.record.key, entry.record.value))

def computeMerkleTree (sha256 : Bytes → Bytes) (s : AdvertisedState) : AdvertisedState :=
  { s with merkleTree := some (.fromRecords sha256 (recordMap s.store.records)) }

def updateMerkleIncremental (sha256 : Bytes → Bytes) (s : AdvertisedState) (key : String)
    (value : Bytes) : AdvertisedState :=
  match s.merkleTree with
  | some tree => { s with merkleTree := some (tree.insertOrUpdate sha256 key value) }
  | none =>
      let recordMap := (recordMap s.store.records).insert key value
      { s with merkleTree := some (.fromRecords sha256 recordMap) }

/-- Without a caller in the source. -/
def removeMerkleKey (sha256 : Bytes → Bytes) (s : AdvertisedState) (key : String) :
    AdvertisedState :=
  { s with merkleTree := s.merkleTree.map fun tree => tree.removeKey sha256 key }

/-- `RecordStoreManager::remove`. -/
def removeRecord (node : RecordStoreManager) (state : RecordStoreState) (key : String) :
    Bool × RecordStoreState :=
  if !node.config.enabled then (false, state)
  else if (state.records.get key).isSome then
    (true, { state with records := state.records.erase key })
  else (false, state)

/-- The flag `changed` at the end of `apply_sync`. -/
def syncChanged (node : RecordStoreManager) (now : Nat) (state : RecordStoreState)
    (records : List DhtRecord) : Bool :=
  (records.foldl (applySyncRecord node now (wrappingAdd state.localVersion 1))
    (state.records, false)).2

inductive RecordOp where
  | storeRecordGlobal (record : DhtRecord) (isLocalOrigin : Bool) (now : Nat)
  | applySync (records : List DhtRecord) (now : Nat)
  | getRecord (key : String) (now : Nat)
  | remove (key : String)
  | cleanupExpired (now : Nat)

def RecordOp.run (prim : Primitives) (node : RecordStoreManager) (s : AdvertisedState) :
    RecordOp → AdvertisedState
  | .storeRecordGlobal record isLocalOrigin now =>
      let (stored, store) := Mesh.storeRecordGlobal prim node now s.store record isLocalOrigin
      if stored then updateMerkleIncremental prim.sha256 { s with store } record.key record.value
      else { s with store }
  | .applySync records now =>
      let synced := { s with store := Mesh.applySync node now s.store records }
      if syncChanged node now s.store records then computeMerkleTree prim.sha256 synced else synced
  | .getRecord key now => { s with store := (Mesh.getRecord node now s.store key).2 }
  | .remove key => { s with store := (removeRecord node s.store key).2 }
  | .cleanupExpired now => { s with store := Mesh.cleanupExpired now s.store }

/-- The runs of a node from a new store. -/
def recordSystem (prim : Primitives) (node : RecordStoreManager) :
    System AdvertisedState RecordOp where
  init := fun s => ∃ diskStore recordSigner,
    s = ⟨{ RecordStoreState.new diskStore with recordSigner }, none⟩
  step := fun s op s' => s' = op.run prim node s

/-- The root of the tree, if there is one, is that of the records. -/
def RootCurrent (prim : Primitives) (s : AdvertisedState) : Prop :=
  ∀ tree, s.merkleTree = some tree →
    tree.rootHash = (MerkleTree.fromRecords prim.sha256 (recordMap s.store.records)).rootHash

/-! ## Section 2: Steps that leave the tree behind -/

/-- What a read finds on the disk. -/
def liveOnDisk (node : RecordStoreManager) (now : Nat) (state : RecordStoreState) (key : String) :
    Option DhtRecordEntry :=
  if node.isGlobalNode then
    (state.diskStore.bind (diskGet · key)).filter fun entry => !entry.record.expiredForRead now
  else none

/-- The read does not change the value under the key: an unexpired record, or
    an expired one with the same value on the disk; or no record, in memory or
    on the disk. -/
def ReadKeepsValue (node : RecordStoreManager) (now : Nat) (state : RecordStoreState)
    (key : String) : Prop :=
  match state.records.get key with
  | none => liveOnDisk node now state key = none
  | some entry =>
      entry.record.expiredForRead now = false ∨
        (liveOnDisk node now state key).map (fun e => e.record.value) = some entry.record.value

/-- With a tree there, the step removes no record and brings none back. -/
def KeepsTreeCurrent (node : RecordStoreManager) (s : AdvertisedState) : RecordOp → Prop
  | .storeRecordGlobal _ _ _ => True
  | .applySync _ _ => True
  | .getRecord key now =>
      s.merkleTree = none ∨ node.config.enabled = false ∨ ReadKeepsValue node now s.store key
  | .remove key =>
      s.merkleTree = none ∨ node.config.enabled = false ∨ s.store.records.get key = none
  | .cleanupExpired now =>
      s.merkleTree = none ∨
        ∀ key entry, s.store.records.get key = some entry → entry.record.expiredForRead now = false

/-! ## Section 3: The values of the records -/

/-- The value under a key. -/
def valueOf (records : ShardedRecordStore) (key : String) : Option Bytes :=
  (records.get key).map fun entry => entry.record.value

theorem lookup_recordMap (records : ShardedRecordStore) (key : String) :
    (recordMap records).lookup key = valueOf records key := by
  have hnodup : ((records.values.map fun entry => (entry.record.key, entry.record.value)).map
      Prod.fst).Nodup := by
    rw [List.map_map, List.nodup_iff_pairwise_ne, List.pairwise_map]
    exact records.pairwise_values visitOrder
  refine Option.ext fun value => ?_
  unfold recordMap valueOf
  rw [Table.lookup_collect hnodup, List.mem_map, Option.map_eq_some_iff]
  constructor
  · intro ⟨entry, hmem, heq⟩
    obtain ⟨rfl, rfl⟩ : entry.record.key = key ∧ entry.record.value = value := by simpa using heq
    exact ⟨entry, KeyedTable.mem_values.mp hmem, rfl⟩
  · intro ⟨entry, hget, heq⟩
    subst heq
    obtain rfl := KeyedTable.keyOf_of_get hget
    exact ⟨entry, KeyedTable.mem_values.mpr hget, rfl⟩

theorem valueOf_insert (records : ShardedRecordStore) (entry : DhtRecordEntry) (key : String) :
    valueOf (records.insert entry) key =
      if key = entry.record.key then some entry.record.value else valueOf records key := by
  unfold valueOf
  rw [KeyedTable.get_insert]
  split <;> rfl

theorem valueOf_erase (records : ShardedRecordStore) (key key' : String) :
    valueOf (records.erase key) key' = if key' = key then none else valueOf records key' := by
  unfold valueOf
  rw [KeyedTable.get_erase]
  split <;> rfl

/-- Signing a local record changes neither its key nor its value. -/
theorem signLocalRecord_key_value (prim : Primitives) (signer : Option RecordSigner) (now : Nat)
    (record : DhtRecord) :
    (signLocalRecord prim signer now record).key = record.key ∧
      (signLocalRecord prim signer now record).value = record.value := by
  unfold signLocalRecord
  split
  · exact ⟨rfl, rfl⟩
  · simp only
    split <;> exact ⟨rfl, rfl⟩

/-- `store_record_global` refuses, or inserts the record under its key. -/
theorem storeRecordGlobal_cases (prim : Primitives) (node : RecordStoreManager) (now : Nat)
    (state : RecordStoreState) (record : DhtRecord) (isLocalOrigin : Bool) :
    storeRecordGlobal prim node now state record isLocalOrigin = (false, state) ∨
    ∃ stored isLocalRecord, stored.key = record.key ∧ stored.value = record.value ∧
      storeRecordGlobal prim node now state record isLocalOrigin =
        (true, insertGlobal node state stored isLocalRecord) := by
  unfold storeRecordGlobal
  generalize (isLocalOrigin && decide (record.sourceNodeId = node.nodeId)) = isLocalRecord
  have hsigned : ∃ stored : DhtRecord, stored.key = record.key ∧ stored.value = record.value ∧
      (if isLocalRecord then signLocalRecord prim state.recordSigner now record else record) =
        stored := by
    refine ⟨_, ?_, ?_, rfl⟩ <;> split
    · exact (signLocalRecord_key_value prim _ now record).1
    · rfl
    · exact (signLocalRecord_key_value prim _ now record).2
    · rfl
  obtain ⟨stored, hkey, hvalue, hstored⟩ := hsigned
  simp only [hstored]
  split
  · exact Or.inl rfl
  · split
    · exact Or.inl rfl
    · exact Or.inr ⟨stored, isLocalRecord, hkey, hvalue, rfl⟩

/-- A synchronization that changes nothing leaves the records as they are. -/
theorem foldl_applySyncRecord_of_unchanged {node : RecordStoreManager} {now version : Nat}
    {records : List DhtRecord} {acc : ShardedRecordStore × Bool}
    (h : (records.foldl (applySyncRecord node now version) acc).2 = false) :
    records.foldl (applySyncRecord node now version) acc = acc := by
  induction records generalizing acc with
  | nil => rfl
  | cons record records ih =>
    rw [List.foldl_cons] at h ⊢
    have hrest := ih h
    rw [hrest] at h ⊢
    unfold applySyncRecord at h ⊢
    split
    · rfl
    · next hadmitted =>
      rw [if_neg hadmitted] at h
      split
      · next hreplace =>
        rw [if_pos hreplace] at h
        cases h
      · rfl

theorem records_applySync_of_unchanged {node : RecordStoreManager} {now : Nat}
    {state : RecordStoreState} {records : List DhtRecord}
    (h : syncChanged node now state records = false) :
    (applySync node now state records).records = state.records := by
  have hfold := foldl_applySyncRecord_of_unchanged h
  unfold applySync
  rw [hfold]

theorem diskGet_key {diskStore : ShardedRecordStore} {key : String} {entry : DhtRecordEntry}
    (h : diskGet diskStore key = some entry) : entry.record.key = key :=
  diskStore.keyed key entry (Option.filter_eq_some_iff.mp h).1

/-- What a look at the disk leaves in memory. -/
theorem valueOf_getFromDisk (node : RecordStoreManager) (now : Nat) (state : RecordStoreState)
    (key key' : String) :
    valueOf (getFromDisk node now state key).2.records key' =
      if key' = key then
        ((liveOnDisk node now state key).map fun e => e.record.value).or
          (valueOf state.records key)
      else valueOf state.records key' := by
  have hsame : valueOf state.records key' =
      if key' = key then valueOf state.records key else valueOf state.records key' := by
    split
    · next h => rw [h]
    · rfl
  unfold getFromDisk liveOnDisk
  by_cases hglobal : node.isGlobalNode = true
  · rw [if_pos hglobal, if_pos hglobal]
    rcases hdisk : state.diskStore.bind (diskGet · key) with _ | entry
    · simpa using hsame
    · have hkey : entry.record.key = key := by
        obtain ⟨diskStore, -, hget⟩ := Option.bind_eq_some_iff.mp hdisk
        exact diskGet_key hget
      simp only
      by_cases hexpired : entry.record.expiredForRead now = true
      · rw [if_pos hexpired]
        rw [Option.filter_some_neg (by simpa using hexpired)]
        exact hsame
      · rw [if_neg hexpired, Option.filter_some_pos (by simpa using hexpired), valueOf_insert, hkey]
        rfl
  · rw [if_neg hglobal, if_neg hglobal]
    simpa using hsame

/-- A read that keeps the value under its key keeps all values. -/
theorem valueOf_getRecord {node : RecordStoreManager} {now : Nat} {state : RecordStoreState}
    {key : String} (h : node.config.enabled = false ∨ ReadKeepsValue node now state key)
    (key' : String) :
    valueOf (getRecord node now state key).2.records key' = valueOf state.records key' := by
  unfold getRecord
  split
  · rfl
  · next henabled =>
    have hkeeps : ReadKeepsValue node now state key := by
      rcases h with hdisabled | hkeeps
      · simp [hdisabled] at henabled
      · exact hkeeps
    unfold ReadKeepsValue at hkeeps
    split
    · next hget =>
      rw [hget] at hkeeps
      simp only at hkeeps
      rw [valueOf_getFromDisk, hkeeps]
      split
      · next heq => simp [heq]
      · rfl
    · next entry hget =>
      rw [hget] at hkeeps
      simp only at hkeeps
      have hkey : entry.record.key = key := state.records.keyed key entry hget
      split
      · -- an edge node takes the entry out and puts it in again
        simp only
        split
        · rfl
        · rw [valueOf_insert, hkey]
          split
          · next heq =>
            rw [heq]
            simp [valueOf, hget]
          · next hne => rw [valueOf_erase, if_neg hne]
      · next hexpired =>
        have hdisk := hkeeps.resolve_left (by simpa using hexpired)
        have hsame : liveOnDisk node now { state with records := state.records.erase key } key =
            liveOnDisk node now state key := rfl
        rw [valueOf_getFromDisk, hsame, hdisk]
        split
        · next heq =>
          rw [heq]
          simp [valueOf, hget]
        · next hne => rw [valueOf_erase, if_neg hne]

theorem cleanupExpired_of_live {now : Nat} {state : RecordStoreState}
    (h : ∀ key entry, state.records.get key = some entry →
      entry.record.expiredForRead now = false) : cleanupExpired now state = state := by
  have hnone : (state.records.values.filter fun entry => entry.record.expiredForRead now) = [] := by
    rw [List.filter_eq_nil_iff]
    intro entry hmem
    simpa using h _ entry (KeyedTable.mem_values.mp hmem)
  unfold cleanupExpired
  rw [hnone]
  rfl

/-! ## Section 4: The tree follows the records -/

/-- The tree, if there is one, is that of the records. -/
def TreeCurrent (sha256 : Bytes → Bytes) (s : AdvertisedState) : Prop :=
  ∀ tree, s.merkleTree = some tree → tree.Reflects sha256 (recordMap s.store.records)

/-- The tree stays current as long as the values do not change. -/
theorem TreeCurrent.of_values {sha256 : Bytes → Bytes} {s : AdvertisedState}
    (h : TreeCurrent sha256 s) {store : RecordStoreState}
    (hvalues : s.merkleTree = none ∨
      ∀ key, valueOf store.records key = valueOf s.store.records key) :
    TreeCurrent sha256 { s with store } := by
  intro tree htree
  rcases hvalues with hnone | hvalues
  · rw [hnone] at htree
    cases htree
  · apply (h tree htree).congr
    intro key
    rw [lookup_recordMap, lookup_recordMap, hvalues]

theorem treeCurrent_computeMerkleTree (sha256 : Bytes → Bytes) (s : AdvertisedState) :
    TreeCurrent sha256 (computeMerkleTree sha256 s) := by
  intro tree htree
  obtain rfl := Option.some.inj htree
  exact MerkleTree.reflects_fromRecords sha256 _

/-- A stored record is in the tree. -/
theorem TreeCurrent.updateMerkleIncremental {sha256 : Bytes → Bytes} {s : AdvertisedState}
    (h : TreeCurrent sha256 s) {store : RecordStoreState} {key : String} {value : Bytes}
    (hvalues : ∀ key', valueOf store.records key' =
      if key' = key then some value else valueOf s.store.records key') :
    TreeCurrent sha256 (Mesh.updateMerkleIncremental sha256 { s with store } key value) := by
  unfold Mesh.updateMerkleIncremental
  simp only
  split
  · next tree htree =>
    intro tree' htree'
    obtain rfl := Option.some.inj htree'
    apply ((h tree htree).insertOrUpdate key value).congr
    intro key'
    rw [Table.lookup_insert_eq, lookup_recordMap, lookup_recordMap, hvalues]
  · intro tree' htree'
    obtain rfl := Option.some.inj htree'
    apply (MerkleTree.reflects_fromRecords sha256 _).congr
    intro key'
    rw [Table.lookup_insert_eq, lookup_recordMap, hvalues]
    split <;> rfl

/-- A removal would be followed, if `remove_merkle_key` were called. -/
theorem TreeCurrent.removeMerkleKey {sha256 : Bytes → Bytes} {s : AdvertisedState}
    (h : TreeCurrent sha256 s) (node : RecordStoreManager) {key : String}
    (hremoved : (removeRecord node s.store key).1 = true) :
    TreeCurrent sha256
      (Mesh.removeMerkleKey sha256 { s with store := (removeRecord node s.store key).2 } key) := by
  intro tree' htree'
  obtain ⟨tree, htree, rfl⟩ := Option.map_eq_some_iff.mp htree'
  apply ((h tree htree).removeKey key).congr
  intro key'
  unfold removeRecord at hremoved ⊢
  split_ifs at hremoved ⊢
  rw [Table.lookup_erase_eq, lookup_recordMap, lookup_recordMap]
  exact (valueOf_erase s.store.records key key').symm

/-- One step. -/
theorem TreeCurrent.run {prim : Primitives} {node : RecordStoreManager} {s : AdvertisedState}
    (h : TreeCurrent prim.sha256 s) {op : RecordOp} (hop : KeepsTreeCurrent node s op) :
    TreeCurrent prim.sha256 (op.run prim node s) := by
  cases op with
  | storeRecordGlobal record isLocalOrigin now =>
    simp only [RecordOp.run]
    rcases storeRecordGlobal_cases prim node now s.store record isLocalOrigin with
      hrefused | ⟨stored, isLocalRecord, hkey, hvalue, hstored⟩
    · rw [hrefused]
      exact h
    · rw [hstored]
      apply h.updateMerkleIncremental
      intro key'
      rw [records_insertGlobal, valueOf_insert, hkey, hvalue]
  | applySync records now =>
    simp only [RecordOp.run]
    split
    · exact treeCurrent_computeMerkleTree prim.sha256 _
    · next hunchanged =>
      apply h.of_values
      right
      intro key
      rw [records_applySync_of_unchanged (by simpa using hunchanged)]
  | getRecord key now => exact h.of_values (hop.imp_right valueOf_getRecord)
  | remove key =>
    apply h.of_values
    refine hop.imp_right ?_
    intro hcond key'
    unfold removeRecord
    rcases hcond with hdisabled | hnone
    · simp [hdisabled]
    · simp [hnone]
  | cleanupExpired now =>
    apply h.of_values
    refine hop.imp_right ?_
    intro hlive key'
    rw [cleanupExpired_of_live hlive]

/-- A whole run. -/
theorem treeCurrent_of_exec {prim : Primitives} {node : RecordStoreManager}
    {tr : List (AdvertisedState × RecordOp)} {s : AdvertisedState}
    (hexec : (recordSystem prim node).Exec tr s)
    (hsteps : ∀ step ∈ tr, KeepsTreeCurrent node step.1 step.2) : TreeCurrent prim.sha256 s := by
  revert hsteps
  refine System.Exec.history (fun tr s => (∀ step ∈ tr, KeepsTreeCurrent node step.1 step.2) →
    TreeCurrent prim.sha256 s) ?_ ?_ hexec
  · intro s ⟨diskStore, recordSigner, hs⟩ _ tree htree
    subst hs
    cases htree
  · intro tr s op s' ih hstep hsteps
    subst hstep
    exact (ih fun step hmem => hsteps step (by simp [hmem])).run (hsteps (s, op) (by simp))

/-- **The advertised root is current** in every run in which, with a tree
    there, no record is removed or expires and no read brings one back. Then
    two nodes with the same keys and values have the same root. -/
theorem advertised_root_current (prim : Primitives) (node : RecordStoreManager)
    {tr : List (AdvertisedState × RecordOp)} {s : AdvertisedState}
    (hexec : (recordSystem prim node).Exec tr s)
    (hsteps : ∀ step ∈ tr, KeepsTreeCurrent node step.1 step.2) :
    RootCurrent prim s ∧
    ∀ (node' : RecordStoreManager) (tr' : List (AdvertisedState × RecordOp)) (s' : AdvertisedState),
      (recordSystem prim node').Exec tr' s' →
      (∀ step ∈ tr', KeepsTreeCurrent node' step.1 step.2) →
      (∀ key, valueOf s.store.records key = valueOf s'.store.records key) →
      ∀ tree tree', s.merkleTree = some tree → s'.merkleTree = some tree' →
        tree.rootHash = tree'.rootHash := by
  have hcurrent := treeCurrent_of_exec hexec hsteps
  constructor
  · intro tree htree
    exact (hcurrent tree htree).rootHash_eq
  · intro node' tr' s' hexec' hsteps' hvalues tree tree' htree htree'
    have hreflects : tree.Reflects prim.sha256 (recordMap s'.store.records) := by
      apply (hcurrent tree htree).congr
      intro key
      rw [lookup_recordMap, lookup_recordMap, hvalues]
    exact hreflects.rootHash_eq.trans
      ((treeCurrent_of_exec hexec' hsteps') tree' htree').rootHash_eq.symm

/-! ### One record, stored and removed -/

/-- The record that node `a` publishes about itself. -/
def ownNodeInfo : DhtRecord :=
  { key := "node_info:a"
    value := [1]
    timestamp := 1000
    sequenceNumber := 0
    ttlSeconds := 60
    sourceNodeId := "a"
    signature := []
    signerPublicKey := none
    contentHash := []
    quorumProof := []
    requestId := none }

def storeOwn : RecordOp := .storeRecordGlobal ownNodeInfo true 1000

/-- The state after the record is stored. -/
def ownStored (prim : Primitives) : AdvertisedState :=
  storeOwn.run prim (globalNode "a") ⟨.new none, none⟩

theorem exec_ownStored (prim : Primitives) :
    (recordSystem prim (globalNode "a")).Exec [(⟨.new none, none⟩, storeOwn)] (ownStored prim) := by
  have hinit : (recordSystem prim (globalNode "a")).init ⟨.new none, none⟩ := ⟨none, none, rfl⟩
  exact (System.Exec.nil hinit).snoc rfl

/-- No signature is looked at, as the record is the node's own. -/
theorem ownStored_eq (prim : Primitives) :
    ownStored prim =
      updateMerkleIncremental prim.sha256
        ⟨insertGlobal (globalNode "a") (.new none) ownNodeInfo true, none⟩ "node_info:a" [1] := by
  have hadmitted : admittedGlobal prim (globalNode "a") 1000 ownNodeInfo true = true := by
    unfold admittedGlobal
    rw [if_neg (by decide +kernel), if_neg (by decide +kernel), if_neg (by decide +kernel),
      if_neg (by decide +kernel), if_neg (by decide +kernel)]
  have hstored : storeRecordGlobal prim (globalNode "a") 1000 (.new none) ownNodeInfo true =
      (true, insertGlobal (globalNode "a") (.new none) ownNodeInfo true) := by
    have hlocal : (true && decide (ownNodeInfo.sourceNodeId = (globalNode "a").nodeId)) = true := by
      decide +kernel
    have hsigned : signLocalRecord prim (RecordStoreState.new none).recordSigner 1000 ownNodeInfo =
        ownNodeInfo := rfl
    have hreplace : shouldReplace ((RecordStoreState.new none).records.get ownNodeInfo.key)
        ownNodeInfo = true := by
      decide +kernel
    unfold storeRecordGlobal
    simp only [hlocal, hadmitted, hsigned, hreplace, Bool.not_true, Bool.false_eq_true, if_false,
      if_true]
  unfold ownStored
  simp only [storeOwn, RecordOp.run, hstored]
  rfl

/-! Two records are stored; then one is read, one that is not there is removed, and the expired
    ones are cleaned up while there are none. -/

def ownUpstream : DhtRecord :=
  { ownNodeInfo with
    key := "upstream:a"
    value := [2] }

def keptOps : List RecordOp :=
  [storeOwn, .storeRecordGlobal ownUpstream true 1000, .getRecord "node_info:a" 1010,
    .remove "node_info:b", .cleanupExpired 1010]

/-- The digests of `node_info:a:\x01`, of `upstream:a:\x02`, and of the two together: no other
    content is hashed here. -/
def twoLeafPrimitives : Primitives :=
  { acceptAllPrimitives with
    sha256 := fun content =>
      if content = leafContent "node_info:a" [1] then
        [195, 193, 106, 0, 112, 82, 251, 37, 101, 89, 165, 246, 21, 107, 133, 211, 63, 187, 145,
          46, 46, 11, 12, 206, 180, 227, 122, 195, 140, 139, 192, 24]
      else if content = leafContent "upstream:a" [2] then
        [52, 216, 4, 52, 217, 106, 142, 1, 244, 65, 210, 84, 164, 47, 22, 95, 40, 127, 139, 146,
          142, 113, 145, 33, 96, 117, 249, 172, 44, 113, 12, 37]
      else
        [199, 88, 203, 182, 255, 7, 67, 32, 207, 205, 214, 70, 180, 172, 4, 73, 3, 182, 62, 253,
          20, 246, 237, 225, 161, 111, 203, 44, 16, 27, 83, 241] }

theorem readKeepsValue_of_live {node : RecordStoreManager} {now : Nat} {state : RecordStoreState}
    {key : String} (hthere : (state.records.get key).isSome = true)
    (hlive : ∀ entry ∈ state.records.get key, entry.record.expiredForRead now = false) :
    ReadKeepsValue node now state key := by
  obtain ⟨entry, hentry⟩ := Option.isSome_iff_exists.mp hthere
  unfold ReadKeepsValue
  rw [hentry]
  exact .inl (hlive entry hentry)

theorem live_of_values {records : ShardedRecordStore} {now : Nat}
    (h : ∀ entry ∈ records.values, entry.record.expiredForRead now = false)
    (key : String) (entry : DhtRecordEntry) (hentry : records.get key = some entry) :
    entry.record.expiredForRead now = false := by
  apply h entry
  refine KeyedTable.mem_values.mpr ?_
  rw [KeyedTable.keyOf_of_get hentry]
  exact hentry

/-- The states in which the operations are called. -/
def opTrace (prim : Primitives) (node : RecordStoreManager) :
    AdvertisedState → List RecordOp → List (AdvertisedState × RecordOp)
  | _, [] => []
  | s, op :: ops => (s, op) :: opTrace prim node (op.run prim node s) ops

theorem exec_opTrace {prim : Primitives} {node : RecordStoreManager}
    {tr : List (AdvertisedState × RecordOp)} {s : AdvertisedState}
    (h : (recordSystem prim node).Exec tr s) (ops : List RecordOp) :
    (recordSystem prim node).Exec (tr ++ opTrace prim node s ops)
      (ops.foldl (RecordOp.run prim node) s) := by
  induction ops generalizing tr s with
  | nil =>
    rw [opTrace, List.append_nil]
    exact h
  | cons op ops ih =>
    have hnext := ih (h.snoc (l := op) rfl)
    rwa [List.append_assoc] at hnext

def twoStored : AdvertisedState :=
  keptOps.foldl (RecordOp.run twoLeafPrimitives (globalNode "a")) ⟨.new none, none⟩

theorem exec_twoStored : (recordSystem twoLeafPrimitives (globalNode "a")).Exec
    (opTrace twoLeafPrimitives (globalNode "a") ⟨.new none, none⟩ keptOps) twoStored := by
  have hinit : (recordSystem twoLeafPrimitives (globalNode "a")).init ⟨.new none, none⟩ :=
    ⟨none, none, rfl⟩
  exact exec_opTrace (System.Exec.nil hinit) keptOps

/-- The root after these operations is that of the two records. -/
theorem advertised_root_of_two :
    twoStored.store.records.size = 2 ∧
      twoStored.merkleTree.map MerkleTree.rootHash =
        some (MerkleTree.fromRecords twoLeafPrimitives.sha256
          (recordMap twoStored.store.records)).rootHash := by
  have hcurrent := (advertised_root_current twoLeafPrimitives (globalNode "a") exec_twoStored ?_).1
  · have htree : twoStored.merkleTree.isSome = true := by decide +kernel
    obtain ⟨tree, heq⟩ := Option.isSome_iff_exists.mp htree
    refine ⟨by decide +kernel, ?_⟩
    rw [heq, Option.map_some, hcurrent tree heq]
  · intro step hstep
    simp only [keptOps, opTrace, List.mem_cons, List.not_mem_nil, or_false] at hstep
    rcases hstep with rfl | rfl | rfl | rfl | rfl
    · trivial
    · trivial
    · exact .inr (.inr (readKeepsValue_of_live (by decide +kernel) (by decide +kernel)))
    · exact .inr (.inr (by decide +kernel))
    · refine .inr (live_of_values ?_)
      decide +kernel

/-- After the record is removed the node still advertises its root, under
    every hash function. -/
theorem removed_record_in_root :
    ¬ ∃ prim, ∀ tr s, (recordSystem prim (globalNode "a")).Exec tr s → RootCurrent prim s := by
  intro ⟨prim, hall⟩
  have hexec := (exec_ownStored prim).snoc (l := .remove "node_info:a") rfl
  have hcurrent := hall _ _ hexec
  rw [ownStored_eq] at hcurrent
  have hroot := hcurrent _ rfl
  cases hroot

end Synvoid.Mesh
