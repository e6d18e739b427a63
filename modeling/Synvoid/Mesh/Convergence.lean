import Synvoid.Framework.LastWriter
import Synvoid.Mesh.RecordStore

/-! # Convergence of replicas

    Records reach a global node one by one through `store_record_global`, and
    in batches through `apply_sync`. Both let a record replace another one of
    the same key if its rank (timestamp, sequence number, source) is higher,
    apart from the immutable types.

    So for every other key the store is a last-writer-wins register
    (`record_exec`): it holds the record of highest rank among those delivered,
    and two nodes that were delivered the same records hold the same one,
    whatever the order, the repetitions and the paths (`replicas_converge`).
-/

namespace Synvoid.Mesh

open Synvoid.Framework

/-! ## Section 1: Deliveries -/

/-- The records that an operation brings. -/
def StoreOp.delivered : StoreOp → List DhtRecord
  | .storeRecordGlobal record _ _ => [record]
  | .applySync records _ => records

/-- The operation is one for records of other nodes, and its records pass the
    checks on its path. -/
def StoreOp.Admitted (prim : Primitives) (node : RecordStoreManager) : StoreOp → Prop
  | .storeRecordGlobal record isLocalOrigin now =>
      isLocalOrigin = false ∧ admittedGlobal prim node now record false = true
  | .applySync records now => ∀ record ∈ records, admittedSync node now record = true

instance (prim : Primitives) (node : RecordStoreManager) (op : StoreOp) :
    Decidable (op.Admitted prim node) :=
  match op with
  | .storeRecordGlobal _ _ _ => inferInstanceAs (Decidable (_ ∧ _))
  | .applySync records _ => inferInstanceAs (Decidable (∀ _ ∈ records, _))

/-- All records delivered in a run. -/
def delivered (tr : List (RecordStoreState × StoreOp)) : List DhtRecord :=
  tr.flatMap fun step => step.2.delivered

/-! ## Section 2: A mutable key is a last-writer-wins register -/

/-- An admitted record of a mutable key is stored if it is newer. -/
theorem record_offerAt {admitted : DhtRecord → Bool} {entry : DhtRecordEntry}
    (hadmitted : admitted entry.record = true) (hkey : isImmutableKey entry.record.key = false)
    (current : Option DhtRecordEntry) :
    (KeyedTable.offerAt (acceptEntry admitted) current entry).map DhtRecordEntry.record =
      KeyedTable.offerAt (newer DhtRecord.rank) (current.map DhtRecordEntry.record)
        entry.record := by
  have haccept : acceptEntry admitted current entry =
      newer DhtRecord.rank (current.map DhtRecordEntry.record) entry.record := by
    unfold acceptEntry shouldReplace
    rw [hadmitted, hkey]
    cases current <;> simp [newer]
  unfold KeyedTable.offerAt
  rw [haccept]
  split <;> rfl

theorem record_foldl_offerAt {admitted : DhtRecord → Bool} {entries : List DhtRecordEntry}
    (hadmitted : ∀ entry ∈ entries, admitted entry.record = true)
    (hkey : ∀ entry ∈ entries, isImmutableKey entry.record.key = false)
    (current : Option DhtRecordEntry) :
    (entries.foldl (KeyedTable.offerAt (acceptEntry admitted)) current).map
        DhtRecordEntry.record =
      (entries.map DhtRecordEntry.record).foldl (KeyedTable.offerAt (newer DhtRecord.rank))
        (current.map DhtRecordEntry.record) := by
  -- the value under the key changes from entry to entry
  induction entries generalizing current with
  | nil => rfl
  | cons entry entries ih =>
    rw [List.foldl_cons, List.map_cons, List.foldl_cons,
      ih (fun e he => hadmitted e (by simp [he])) (fun e he => hkey e (by simp [he])),
      record_offerAt (hadmitted entry (by simp)) (hkey entry (by simp))]

/-- A list of admitted records, offered to the store. -/
theorem record_get_foldl_offer {admitted : DhtRecord → Bool} {records : List DhtRecord}
    (hadmitted : ∀ record ∈ records, admitted record = true) {key : String}
    (hkey : isImmutableKey key = false) (version : Nat) (store : ShardedRecordStore) :
    (((records.map fun record => (⟨record, false, version⟩ : DhtRecordEntry)).foldl
        (KeyedTable.offer (acceptEntry admitted)) store).get key).map DhtRecordEntry.record =
      (records.filter fun record => record.key = key).foldl
        (KeyedTable.offerAt (newer DhtRecord.rank))
        ((store.get key).map DhtRecordEntry.record) := by
  -- only the records of this key matter for it
  rw [KeyedTable.get_foldl_offer, record_foldl_offerAt]
  · simp [List.filter_map, Function.comp_def]
  · intro entry hentry
    obtain ⟨record, hmem, rfl⟩ := List.mem_map.mp (List.mem_filter.mp hentry).1
    exact hadmitted record hmem
  · intro entry hentry
    have hentryKey : entry.record.key = key := by simpa using (List.mem_filter.mp hentry).2
    rwa [hentryKey]

/-- One operation. -/
theorem record_run {prim : Primitives} {node : RecordStoreManager} {op : StoreOp}
    (hadmitted : op.Admitted prim node) {key : String} (hkey : isImmutableKey key = false)
    (state : RecordStoreState) :
    ((op.run prim node state).records.get key).map DhtRecordEntry.record =
      (op.delivered.filter fun record => record.key = key).foldl
        (KeyedTable.offerAt (newer DhtRecord.rank))
        ((state.records.get key).map DhtRecordEntry.record) := by
  cases op with
  | storeRecordGlobal record isLocalOrigin now =>
    obtain ⟨rfl, hrecord⟩ := hadmitted
    simp only [StoreOp.run, StoreOp.delivered]
    rw [records_storeRecordGlobal_remote]
    have hlist : ∀ r ∈ [record], admittedGlobal prim node now r false = true := by
      simpa using hrecord
    have hoffer := record_get_foldl_offer hlist hkey state.localVersion state.records
    simpa only [List.map_cons, List.map_nil, List.foldl_cons, List.foldl_nil] using hoffer
  | applySync records now =>
    simp only [StoreOp.run, StoreOp.delivered]
    rw [records_applySync]
    have hlist : ∀ r ∈ records, admittedSync node now r = true := hadmitted
    exact record_get_foldl_offer hlist hkey (wrappingAdd state.localVersion 1) state.records

/-- A whole run from an empty store. -/
theorem record_exec {prim : Primitives} {node : RecordStoreManager}
    {tr : List (RecordStoreState × StoreOp)} {state : RecordStoreState}
    (hexec : (storeSystem prim node).Exec tr state)
    (hadmitted : ∀ step ∈ tr, step.2.Admitted prim node) {key : String}
    (hkey : isImmutableKey key = false) :
    (state.records.get key).map DhtRecordEntry.record =
      ((delivered tr).filter fun record => record.key = key).foldl
        (KeyedTable.offerAt (newer DhtRecord.rank)) none := by
  revert hadmitted
  refine System.Exec.history (fun tr state => (∀ step ∈ tr, step.2.Admitted prim node) →
    (state.records.get key).map DhtRecordEntry.record =
      ((delivered tr).filter fun record => record.key = key).foldl
        (KeyedTable.offerAt (newer DhtRecord.rank)) none) ?_ ?_ hexec
  · intro s ⟨diskStore, recordSigner, hs⟩ _
    subst hs
    rfl
  · intro tr s op s' ih hstep hadmitted
    subst hstep
    -- the fold over the run is continued by the records of the last step
    have hop : op.Admitted prim node := hadmitted (s, op) (by simp)
    rw [record_run hop hkey, ih fun step hmem => hadmitted step (by simp [hmem])]
    simp [delivered, List.filter_append, List.foldl_append]

/-- The record under a mutable key is the last one of those delivered for
    it. -/
theorem isLast_of_exec {prim : Primitives} {node : RecordStoreManager}
    {tr : List (RecordStoreState × StoreOp)} {state : RecordStoreState}
    (hexec : (storeSystem prim node).Exec tr state)
    (hadmitted : ∀ step ∈ tr, step.2.Admitted prim node) {key : String}
    (hkey : isImmutableKey key = false) :
    IsLast DhtRecord.rank ((delivered tr).filter fun record => record.key = key)
      ((state.records.get key).map DhtRecordEntry.record) := by
  rw [record_exec hexec hadmitted hkey]
  exact isLast_foldl_offerAt DhtRecord.rank _

/-! ## Section 3: Convergence -/

theorem DhtRecord.rank_eq_iff {r r' : DhtRecord} :
    r.rank = r'.rank ↔ r.timestamp = r'.timestamp ∧ r.sequenceNumber = r'.sequenceNumber ∧
      r.sourceNodeId = r'.sourceNodeId := by
  simp [DhtRecord.rank]

/-- **Replicas converge on mutable records.** The records of a finite set, in
    which different records of one key differ in timestamp, sequence number or
    source, are delivered to two global nodes, in any order, any number of
    times and on any path that admits them. For every key whose type is not
    immutable, both nodes hold the same record, which is the one of highest
    rank. -/
theorem replicas_converge (prim : Primitives) (node₁ node₂ : RecordStoreManager)
    (records : Finset DhtRecord)
    (hdistinct : ∀ r ∈ records, ∀ r' ∈ records, r.key = r'.key → r.timestamp = r'.timestamp →
      r.sequenceNumber = r'.sequenceNumber → r.sourceNodeId = r'.sourceNodeId → r = r')
    {tr₁ tr₂ : List (RecordStoreState × StoreOp)} {state₁ state₂ : RecordStoreState}
    (hexec₁ : (storeSystem prim node₁).Exec tr₁ state₁)
    (hexec₂ : (storeSystem prim node₂).Exec tr₂ state₂)
    (hadmitted₁ : ∀ step ∈ tr₁, step.2.Admitted prim node₁)
    (hadmitted₂ : ∀ step ∈ tr₂, step.2.Admitted prim node₂)
    (hdelivered₁ : ∀ r, r ∈ delivered tr₁ ↔ r ∈ records)
    (hdelivered₂ : ∀ r, r ∈ delivered tr₂ ↔ r ∈ records)
    (key : String) (hkey : isImmutableKey key = false) :
    (state₁.records.get key).map DhtRecordEntry.record =
      (state₂.records.get key).map DhtRecordEntry.record ∧
    ∀ r, (state₁.records.get key).map DhtRecordEntry.record = some r ↔
      r ∈ records ∧ r.key = key ∧ ∀ r' ∈ records, r'.key = key → r'.rank ≤ r.rank := by
  have hmem₁ : ∀ r, (r ∈ (delivered tr₁).filter fun r => r.key = key) ↔
      r ∈ records ∧ r.key = key := by
    simp [hdelivered₁]
  have hmem₂ : ∀ r, (r ∈ (delivered tr₂).filter fun r => r.key = key) ↔
      r ∈ records ∧ r.key = key := by
    simp [hdelivered₂]
  -- equal ranks under one key are equal records
  have hinj : ∀ r ∈ (delivered tr₁).filter (fun r => r.key = key),
      ∀ r' ∈ (delivered tr₁).filter (fun r => r.key = key), r.rank = r'.rank → r = r' := by
    intro r hr r' hr' hrank
    obtain ⟨hmem, hk⟩ := (hmem₁ r).mp hr
    obtain ⟨hmem', hk'⟩ := (hmem₁ r').mp hr'
    obtain ⟨htime, hseq, hsource⟩ := DhtRecord.rank_eq_iff.mp hrank
    exact hdistinct r hmem r' hmem' (hk.trans hk'.symm) htime hseq hsource
  have hlast₁ := isLast_of_exec hexec₁ hadmitted₁ hkey
  have hlast₂ := isLast_of_exec hexec₂ hadmitted₂ hkey
  constructor
  · exact IsLast.unique (fun r => (hmem₁ r).trans (hmem₂ r).symm) hinj hlast₁ hlast₂
  · intro r
    rw [hlast₁.eq_some_iff hinj]
    simp only [hmem₁, and_imp, and_assoc]

/-! ### Two nodes and two records -/

/-- The `node_info` of node `b`, signed at a given time. -/
def signedNodeInfo (timestamp : Nat) : DhtRecord :=
  { key := "node_info:b"
    value := []
    timestamp
    sequenceNumber := 0
    ttlSeconds := 60
    sourceNodeId := "b"
    signature := List.replicate 64 255
    signerPublicKey := some zeroKeyBase64
    contentHash := []
    quorumProof := []
    requestId := none }

/-- Any list of operations is a run from a new store. -/
theorem exec_foldl_run (prim : Primitives) (node : RecordStoreManager) (ops : List StoreOp) :
    ∃ tr, tr.map Prod.snd = ops ∧
      (storeSystem prim node).Exec tr (ops.foldl (StoreOp.run prim node) (.new none)) := by
  induction ops using List.reverseRecOn with
  | nil => exact ⟨[], rfl, .nil ⟨none, none, rfl⟩⟩
  | append_singleton ops op ih =>
    obtain ⟨tr, hlabels, hexec⟩ := ih
    rw [List.foldl_append]
    exact ⟨tr ++ [_], by simp [hlabels], hexec.snoc rfl⟩

theorem delivered_eq (tr : List (RecordStoreState × StoreOp)) :
    delivered tr = (tr.map Prod.snd).flatMap StoreOp.delivered := by
  simp [delivered, List.flatMap_map]

theorem admitted_of_labels {prim : Primitives} {node : RecordStoreManager}
    {tr : List (RecordStoreState × StoreOp)} {ops : List StoreOp} (hlabels : tr.map Prod.snd = ops)
    (hops : ∀ op ∈ ops, op.Admitted prim node) : ∀ step ∈ tr, step.2.Admitted prim node := by
  intro step hstep
  subst hlabels
  exact hops step.2 (List.mem_map_of_mem hstep)

/-- The later record first, and the earlier one twice. -/
def laterFirst : List StoreOp :=
  [.storeRecordGlobal (signedNodeInfo 1001) false 1002,
    .applySync [signedNodeInfo 1000, signedNodeInfo 1000] 1002]

def oneBatch : List StoreOp := [.applySync [signedNodeInfo 1000, signedNodeInfo 1001] 1002]

/-- Both nodes hold the later record. -/
theorem replicas_converge_two_orders :
    ((laterFirst.foldl (StoreOp.run acceptAllPrimitives (globalNode "a")) (.new none)).records.get
      "node_info:b").map DhtRecordEntry.record = some (signedNodeInfo 1001) ∧
    ((oneBatch.foldl (StoreOp.run acceptAllPrimitives (globalNode "c")) (.new none)).records.get
      "node_info:b").map DhtRecordEntry.record = some (signedNodeInfo 1001) := by
  obtain ⟨tr₁, hlabels₁, hexec₁⟩ := exec_foldl_run acceptAllPrimitives (globalNode "a") laterFirst
  obtain ⟨tr₂, hlabels₂, hexec₂⟩ := exec_foldl_run acceptAllPrimitives (globalNode "c") oneBatch
  have hdelivered₁ : ∀ r, r ∈ delivered tr₁ ↔
      r ∈ ({signedNodeInfo 1000, signedNodeInfo 1001} : Finset DhtRecord) := by
    rw [delivered_eq, hlabels₁]
    simp only [laterFirst, List.flatMap_cons, List.flatMap_nil, StoreOp.delivered]
    grind
  have hdelivered₂ : ∀ r, r ∈ delivered tr₂ ↔
      r ∈ ({signedNodeInfo 1000, signedNodeInfo 1001} : Finset DhtRecord) := by
    rw [delivered_eq, hlabels₂]
    simp only [oneBatch, List.flatMap_cons, List.flatMap_nil, StoreOp.delivered]
    grind
  obtain ⟨hsame, hlast⟩ := replicas_converge acceptAllPrimitives (globalNode "a") (globalNode "c")
    {signedNodeInfo 1000, signedNodeInfo 1001} (by decide +kernel) hexec₁ hexec₂
    (admitted_of_labels hlabels₁ (by decide +kernel))
    (admitted_of_labels hlabels₂ (by decide +kernel))
    hdelivered₁ hdelivered₂ "node_info:b" (by decide +kernel)
  have hlater := (hlast (signedNodeInfo 1001)).mpr (by decide +kernel)
  exact ⟨hlater, hsame.symm.trans hlater⟩

end Synvoid.Mesh
