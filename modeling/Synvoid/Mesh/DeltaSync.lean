import Synvoid.Mesh.RecordStore

/-! # Delta synchronization

    A global node `A` asks another one `B` for the records that it misses:
    `A` sends its own version counter, `B` answers with its unexpired entries
    of a larger version, and `A` applies them (`syncFrom`).

    The counters of two nodes have nothing to do with each other. A new node
    has version 1, and so has the first record that another new node stores,
    which is then not sent (`first_record_missed`). `A` holds every unexpired
    record of `B` afterwards exactly if it held it before, or the entry at `B`
    has a larger version than `A` itself and `A` takes it
    (`delta_sync_complete_iff`).
-/

namespace Synvoid.Mesh

open Synvoid.Framework

/-! ## Section 1: One synchronization -/

/-- `A` asks, `B` answers at time `nowB`, and `A` applies the answer at time
    `nowA`. -/
def syncFrom (nodeA nodeB : RecordStoreManager) (nowA nowB : Nat)
    (stateA stateB : RecordStoreState) : Option RecordStoreState := do
  let fromVersion ← createSyncRequest nodeA stateA
  let records ← createSyncResponse nodeB nowB stateB fromVersion
  return applySync nodeA nowA stateA records

/-- The entry has the record, or one of higher rank. -/
def Covers (held : Option DhtRecordEntry) (record : DhtRecord) : Prop :=
  ∃ entry, held = some entry ∧ (entry.record = record ∨ record.rank < entry.record.rank)

/-- `stateA` covers the unexpired records of `stateB`. -/
def HoldsAll (stateA stateB : RecordStoreState) (now : Nat) : Prop :=
  ∀ key entry, stateB.records.get key = some entry → entry.record.expiredForRead now = false →
    Covers (stateA.records.get key) entry.record

/-- `A` is sent the entry and stores it. -/
def Transfers (nodeA : RecordStoreManager) (nowA : Nat) (stateA : RecordStoreState)
    (entry : DhtRecordEntry) : Prop :=
  entry.version > stateA.localVersion ∧ admittedSync nodeA nowA entry.record = true ∧
    shouldReplace (stateA.records.get entry.record.key) entry.record = true

/-! ## Section 2: What is sent, and what is stored -/

theorem mem_getRecordsForSync {now fromVersion : Nat} {state : RecordStoreState}
    {record : DhtRecord} :
    record ∈ getRecordsForSync now state fromVersion ↔
      ∃ entry, state.records.get record.key = some entry ∧ entry.record = record ∧
        entry.version > fromVersion ∧ record.expiredForRead now = false := by
  unfold getRecordsForSync ShardedRecordStore.values
  simp only [List.mem_map, List.mem_filter, KeyedTable.mem_values, Bool.and_eq_true,
    decide_eq_true_eq, Bool.not_eq_true']
  constructor
  · intro ⟨entry, ⟨hget, hversion, hlive⟩, hrecord⟩
    subst hrecord
    exact ⟨entry, hget, rfl, hversion, hlive⟩
  · intro ⟨entry, hget, hrecord, hversion, hlive⟩
    subst hrecord
    exact ⟨entry, ⟨hget, hversion, hlive⟩, rfl⟩

theorem pairwise_getRecordsForSync (now fromVersion : Nat) (state : RecordStoreState) :
    (getRecordsForSync now state fromVersion).Pairwise fun r r' => r.key ≠ r'.key := by
  unfold getRecordsForSync
  rw [List.pairwise_map]
  exact (KeyedTable.pairwise_values state.records visitOrder).filter _

/-- What `A` has under the key of an entry that it was sent. -/
theorem get_applySync_of_mem {node : RecordStoreManager} {now : Nat} {state : RecordStoreState}
    {records : List DhtRecord} (hkeys : records.Pairwise fun r r' => r.key ≠ r'.key)
    {record : DhtRecord} (hmem : record ∈ records) :
    (applySync node now state records).records.get record.key =
      KeyedTable.offerAt (acceptEntry (admittedSync node now)) (state.records.get record.key)
        ⟨record, false, wrappingAdd state.localVersion 1⟩ := by
  rw [records_applySync]
  -- no other record of the answer has this key
  refine KeyedTable.get_foldl_offer_of_mem _ _ ?_ (List.mem_map_of_mem hmem)
  exact List.pairwise_map.mpr hkeys

theorem get_applySync_of_forall_ne {node : RecordStoreManager} {now : Nat}
    {state : RecordStoreState} {records : List DhtRecord} {key : String}
    (h : ∀ record ∈ records, record.key ≠ key) :
    (applySync node now state records).records.get key = state.records.get key := by
  rw [records_applySync]
  refine KeyedTable.get_foldl_offer_of_forall_ne _ _ ?_
  intro entry hentry
  obtain ⟨record, hmem, rfl⟩ := List.mem_map.mp hentry
  exact h record hmem

/-! ## Section 3: Completeness -/

section completeness
variable {nodeA nodeB : RecordStoreManager} {nowA nowB : Nat} {stateA stateB : RecordStoreState}

theorem covers_applySync_of_sent {records : List DhtRecord}
    (hkeys : records.Pairwise fun r r' => r.key ≠ r'.key) {entry : DhtRecordEntry}
    (hmem : entry.record ∈ records) (hversion : entry.version > stateA.localVersion) :
    Covers ((applySync nodeA nowA stateA records).records.get entry.record.key) entry.record ↔
      Covers (stateA.records.get entry.record.key) entry.record ∨
        Transfers nodeA nowA stateA entry := by
  rw [get_applySync_of_mem hkeys hmem]
  unfold KeyedTable.offerAt
  by_cases haccept : acceptEntry (admittedSync nodeA nowA) (stateA.records.get entry.record.key)
      ⟨entry.record, false, wrappingAdd stateA.localVersion 1⟩ = true
  · rw [if_pos haccept]
    -- `A` stores the record itself
    have htaken : Transfers nodeA nowA stateA entry :=
      ⟨hversion, by simpa [acceptEntry] using haccept⟩
    constructor
    · intro _
      exact Or.inr htaken
    · intro _
      exact ⟨_, rfl, Or.inl rfl⟩
  · rw [if_neg haccept]
    constructor
    · exact Or.inl
    · intro h
      rcases h with h | ⟨-, hadmitted, hreplace⟩
      · exact h
      · exact absurd (by simp [acceptEntry, hadmitted, hreplace]) haccept

theorem covers_applySync_of_not_sent {key : String} {entry : DhtRecordEntry}
    (hget : stateB.records.get key = some entry)
    (hversion : ¬ entry.version > stateA.localVersion) :
    Covers ((applySync nodeA nowA stateA
        (getRecordsForSync nowB stateB stateA.localVersion)).records.get key) entry.record ↔
      Covers (stateA.records.get key) entry.record := by
  rw [get_applySync_of_forall_ne]
  -- a record of this key in the answer would be that of the same entry
  intro record hrecord hkey
  obtain ⟨entry', hget', -, hversion', -⟩ := mem_getRecordsForSync.mp hrecord
  rw [hkey, hget] at hget'
  obtain rfl := Option.some.inj hget'
  exact hversion hversion'

/-- **Delta synchronization is complete**, for two enabled global nodes in any
    two states (so after any two histories), if and only if every unexpired
    record of `B` is one that `A` covers already, or one that is sent (its
    version at `B` is larger than `A`'s own) and that `A` admits and lets
    replace what it has. -/
theorem delta_sync_complete_iff (nodeA nodeB : RecordStoreManager) (nowA nowB : Nat)
    (stateA stateB : RecordStoreState)
    (hA : nodeA.config.enabled = true ∧ nodeA.isGlobalNode = true)
    (hB : nodeB.config.enabled = true ∧ nodeB.isGlobalNode = true) :
    (∃ stateA', syncFrom nodeA nodeB nowA nowB stateA stateB = some stateA' ∧
      HoldsAll stateA' stateB nowB) ↔
    ∀ key entry, stateB.records.get key = some entry → entry.record.expiredForRead nowB = false →
      Covers (stateA.records.get key) entry.record ∨ Transfers nodeA nowA stateA entry := by
  have hsync : syncFrom nodeA nodeB nowA nowB stateA stateB =
      some (applySync nodeA nowA stateA
        (getRecordsForSync nowB stateB stateA.localVersion)) := by
    simp [syncFrom, createSyncRequest, createSyncResponse, hA, hB]
  have hentry : ∀ key entry, stateB.records.get key = some entry →
      entry.record.expiredForRead nowB = false →
      (Covers ((applySync nodeA nowA stateA
          (getRecordsForSync nowB stateB stateA.localVersion)).records.get key) entry.record ↔
        Covers (stateA.records.get key) entry.record ∨ Transfers nodeA nowA stateA entry) := by
    intro key entry hget hlive
    by_cases hversion : entry.version > stateA.localVersion
    · have hkey : entry.record.key = key := stateB.records.keyed key entry hget
      subst hkey
      have hsent := mem_getRecordsForSync.mpr ⟨entry, hget, rfl, hversion, hlive⟩
      exact covers_applySync_of_sent (pairwise_getRecordsForSync _ _ _) hsent hversion
    · rw [covers_applySync_of_not_sent hget hversion]
      constructor
      · exact Or.inl
      · intro h
        exact h.resolve_right fun htransfers => hversion htransfers.1
  constructor
  · intro ⟨stateA', hstate, hall⟩ key entry hget hlive
    rw [hsync] at hstate
    obtain rfl := Option.some.inj hstate
    exact (hentry key entry hget hlive).mp (hall key entry hget hlive)
  · intro h
    refine ⟨_, hsync, ?_⟩
    intro key entry hget hlive
    exact (hentry key entry hget hlive).mpr (h key entry hget hlive)

end completeness

/-! ### A record that is sent, and one that is not -/

/-- The `node_info` of node `b`. -/
def nodeInfoOfB : DhtRecord :=
  { key := "node_info:b"
    value := []
    timestamp := 1000
    sequenceNumber := 0
    ttlSeconds := 60
    sourceNodeId := "b"
    signature := []
    signerPublicKey := none
    contentHash := []
    quorumProof := []
    requestId := none }

/-- Node `b` has received its `node_info` by a synchronization, which gives it
    version 2. A new node `a` gets it. -/
theorem delta_sync_complete_after_sync :
    ∃ stateA', syncFrom (globalNode "a") (globalNode "b") 1000 1000 (.new none)
        (applySync (globalNode "b") 1000 (.new none) [nodeInfoOfB]) = some stateA' ∧
      HoldsAll stateA' (applySync (globalNode "b") 1000 (.new none) [nodeInfoOfB]) 1000 := by
  have hrecords : (applySync (globalNode "b") 1000 (.new none) [nodeInfoOfB]).records =
      KeyedTable.insert .empty ⟨nodeInfoOfB, false, 2⟩ := by
    rw [records_applySync]
    show KeyedTable.offer (acceptEntry (admittedSync (globalNode "b") 1000)) .empty
      ⟨nodeInfoOfB, false, 2⟩ = _
    apply KeyedTable.offer_of_accept
    decide +kernel
  apply (delta_sync_complete_iff _ _ _ _ _ _ ⟨rfl, rfl⟩ ⟨rfl, rfl⟩).mpr
  intro key entry hget _
  rw [hrecords, KeyedTable.get_insert] at hget
  split at hget
  · obtain rfl := Option.some.inj hget
    exact Or.inr ⟨by decide, by decide +kernel, by decide +kernel⟩
  · cases hget

/-- The first record that node `b` stores itself has version 1, and a new node
    `a` does not get it. -/
theorem first_record_missed :
    let prim := acceptAllPrimitives
    let stateA := RecordStoreState.new none
    let stateB := (storeRecordGlobal prim (globalNode "b") 1000 (.new none) nodeInfoOfB true).2
    (storeSystem prim (globalNode "a")).Exec [] stateA ∧
    (storeSystem prim (globalNode "b")).Exec
      [(.new none, .storeRecordGlobal nodeInfoOfB true 1000)] stateB ∧
    ¬ ∃ stateA', syncFrom (globalNode "a") (globalNode "b") 1000 1000 stateA stateB =
        some stateA' ∧ HoldsAll stateA' stateB 1000 := by
  intro prim stateA stateB
  have hinit : ∀ nodeId, (storeSystem prim (globalNode nodeId)).init (.new none) :=
    fun _ => ⟨none, none, rfl⟩
  refine ⟨.nil (hinit "a"), (System.Exec.nil (hinit "b")).snoc rfl, ?_⟩
  have hstored : (storeRecordGlobal prim (globalNode "b") 1000 (.new none) nodeInfoOfB true).1 =
      true := by
    decide +kernel
  have hget : stateB.records.get "node_info:b" = some ⟨nodeInfoOfB, true, 1⟩ := by
    show (storeRecordGlobal prim (globalNode "b") 1000 (.new none) nodeInfoOfB true).2.records.get
      "node_info:b" = _
    rw [snd_storeRecordGlobal_local rfl hstored, records_insertGlobal]
    rfl
  intro ⟨stateA', hsync, hall⟩
  obtain rfl := Option.some.inj hsync
  have hcovers := hall "node_info:b" _ hget (by decide +kernel)
  obtain ⟨entry, hentry, -⟩ := (covers_applySync_of_not_sent hget (by decide)).mp hcovers
  cases hentry

end Synvoid.Mesh
