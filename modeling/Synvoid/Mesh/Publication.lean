import Synvoid.Mesh.RecordStore

/-! # Publication of local records

    Model of `store_and_announce` (`dht/record_store_crud.rs`). It builds a
    record without a signature, stores it as a local record and queues it for
    announcement. The admission check refuses every record without a
    signature, so nothing is ever published this way
    (`publication_never_end_to_end`).

    A record that gets past this check is signed by `store_record_global`, but
    what is signed there has other fields than the record
    (`local_copy_does_not_verify`).
-/

namespace Synvoid.Mesh

open Synvoid.Framework

section publication
variable (prim : Primitives)

/-- The record that `store_and_announce` builds. -/
def unsignedRecord (node : RecordStoreManager) (now : Nat) (key : String) (value : Bytes)
    (ttlSeconds : Nat) : DhtRecord :=
  { key, value
    timestamp := now
    sequenceNumber := 0
    ttlSeconds
    sourceNodeId := node.nodeId
    signature := []
    signerPublicKey := none
    contentHash := prim.sha256 value
    quorumProof := []
    requestId := none }

/-- Also returns the record and the number of nodes to broadcast it to, if it
    is to be broadcast at once. -/
def storeAndAnnounceWithBroadcast (node : RecordStoreManager) (routing : RoutingState) (now : Nat)
    (state : RecordStoreState) (key : String) (value : Bytes) (ttlSeconds : Nat)
    (immediateBroadcast : Bool) (replicationFactor : Nat) :
    Bool × RecordStoreState × Option (DhtRecord × Nat) :=
  if !node.config.enabled then (false, state, none)
  else
    let record := unsignedRecord prim node now key value ttlSeconds
    let (stored, state') := storeLocalRecord prim node routing now state record 100
    if stored then
      (true, queueForAnnounce state' record,
        if immediateBroadcast && node.isGlobalNode && replicationFactor > 0 then
          some (record, replicationFactor)
        else none)
    else (false, state', none)

def storeAndAnnounce (node : RecordStoreManager) (routing : RoutingState) (now : Nat)
    (state : RecordStoreState) (key : String) (value : Bytes) (ttlSeconds : Nat) :
    Bool × RecordStoreState :=
  let (stored, state', _) :=
    storeAndAnnounceWithBroadcast prim node routing now state key value ttlSeconds false 0
  (stored, state')

/-! ## Section 1: Nothing is published -/

/-- Publication works end to end: it succeeds, the value can be read until it
    expires, and the stored and the announced copy verify. -/
structure PublishesEndToEnd (node : RecordStoreManager) (routing : RoutingState) (now : Nat)
    (state : RecordStoreState) (key : String) (value : Bytes) (ttlSeconds : Nat) : Prop where
  succeeds : (storeAndAnnounce prim node routing now state key value ttlSeconds).1 = true
  readable : ∀ later, now ≤ later → later < now + ttlSeconds →
    (getRecord node later (storeAndAnnounce prim node routing now state key value ttlSeconds).2
      key).1.map DhtRecord.value = some value
  storedVerifies : ∃ entry,
    (storeAndAnnounce prim node routing now state key value ttlSeconds).2.records.get key =
      some entry ∧
    verifyDhtRecordSignatureForKey prim entry.record (recordTypeOfKey key) = true
  announcedVerifies : ∃ record ∈
    (storeAndAnnounce prim node routing now state key value ttlSeconds).2.pendingAnnounces,
    record.key = key ∧ record.value = value ∧
    verifyDhtRecordSignatureForKey prim record (recordTypeOfKey key) = true

end publication

variable {prim : Primitives}

/-- No unsigned record is admitted, not even a local one. -/
theorem admittedSigned_of_unsigned {node : RecordStoreManager} {routing : RoutingState}
    {record : DhtRecord} (h : record.signature = []) (isLocalOrigin : Bool) :
    admittedSigned prim node routing record isLocalOrigin = false := by
  unfold admittedSigned
  simp [h]

theorem storeRecordVerifiedInternal_of_unsigned {node : RecordStoreManager}
    {routing : RoutingState} {now : Nat} {state : RecordStoreState} {record : DhtRecord}
    (h : record.signature = []) (sourceReputation : Int) (isLocalOrigin : Bool) :
    storeRecordVerifiedInternal prim node routing now state record sourceReputation isLocalOrigin =
      (false, state) := by
  unfold storeRecordVerifiedInternal
  rw [admittedSigned_of_unsigned h]
  rfl

/-- `store_and_announce` does nothing. -/
theorem storeAndAnnounce_eq (prim : Primitives) (node : RecordStoreManager)
    (routing : RoutingState) (now : Nat) (state : RecordStoreState) (key : String) (value : Bytes)
    (ttlSeconds : Nat) :
    storeAndAnnounce prim node routing now state key value ttlSeconds = (false, state) := by
  have hstore : storeLocalRecord prim node routing now state
      (unsignedRecord prim node now key value ttlSeconds) 100 = (false, state) :=
    storeRecordVerifiedInternal_of_unsigned rfl 100 true
  unfold storeAndAnnounce storeAndAnnounceWithBroadcast
  simp only [hstore]
  cases node.config.enabled <;> rfl

/-- **Publication never works end to end**: on every node, in every state and
    for every key, value and lifetime, `store_and_announce` fails and leaves
    the store and the announce queue as they are. -/
theorem publication_never_end_to_end (prim : Primitives) (node : RecordStoreManager)
    (routing : RoutingState) (now : Nat) (state : RecordStoreState) (key : String) (value : Bytes)
    (ttlSeconds : Nat) :
    storeAndAnnounce prim node routing now state key value ttlSeconds = (false, state) ∧
    ¬ PublishesEndToEnd prim node routing now state key value ttlSeconds := by
  constructor
  · exact storeAndAnnounce_eq prim node routing now state key value ttlSeconds
  · intro h
    have hsucceeds := h.succeeds
    rw [storeAndAnnounce_eq] at hsucceeds
    cases hsucceeds

/-- The state of a new node after `set_record_signer`. -/
def signingState (signer : MeshMessageSigner) : RecordStoreState :=
  { RecordStoreState.new none with recordSigner := some ⟨some signer⟩ }

/-- A new global node with a record signer does not publish its own
    `node_info`, although nothing stands against it. -/
theorem node_info_not_published :
    let node := globalNode "g"
    let state := signingState ⟨fun _ => List.replicate 64 0, zeroKeyBase64⟩
    node.config.enabled = true ∧ node.isGlobalNode = true ∧ state.recordSigner.isSome = true ∧
    (DhtKey.fromStr "node_info:g").isRaftGlobal = false ∧ state.records.get "node_info:g" = none ∧
    ¬ PublishesEndToEnd acceptAllPrimitives node
      ⟨none, none⟩ 1000 state "node_info:g" [] 60 := by
  intro node state
  refine ⟨rfl, rfl, rfl, by decide +kernel, rfl, ?_⟩
  intro h
  have hsucceeds := h.succeeds
  rw [storeAndAnnounce_eq] at hsucceeds
  cases hsucceeds

/-! ## Section 2: What a local record is signed with -/

/-- The signature that a local record gets is one over a new record of type
    `NodeInfo`, with sequence number 1. -/
theorem signLocalRecord_eq {signer : MeshMessageSigner} {now : Nat} {record : DhtRecord} :
    signLocalRecord prim (some ⟨some signer⟩) now record =
      { record with
        signature := signer.sign ((SignedDhtRecord.new record.key record.value
          record.sourceNodeId .nodeInfo now).getSignableContent prim)
        signerPublicKey := some signer.publicKey } :=
  rfl

/-- A signature over the content of another signed record is not accepted. -/
theorem verifySignedBy_of_other_content {signer : MeshMessageSigner} {record : DhtRecord}
    {signed made : SignedDhtRecord}
    (hideal : ∀ content content' key,
      verifyAuto prim.base64Decode prim.schemes content (signer.sign content') key = true →
        content = content')
    (hsig : record.signature = signer.sign (made.getSignableContent prim))
    (hne : signed.getSignableContent prim ≠ made.getSignableContent prim) :
    verifySignedBy prim record signed = false := by
  apply Bool.eq_false_iff.mpr
  intro h
  unfold verifySignedBy at h
  split_ifs at h
  split at h
  · cases h
  · split_ifs at h
    split at h
    · cases h
    · rw [hsig] at h
      exact hne (hideal _ _ _ h)

/-- **The copy that a node stores of its own record does not verify**, if
    signatures are over one content only and the serializer is injective: the
    record has sequence number 0, and what was signed has 1. -/
theorem local_copy_does_not_verify {node : RecordStoreManager} {now : Nat}
    {state : RecordStoreState} {signer : MeshMessageSigner} {record : DhtRecord}
    (hsigner : state.recordSigner = some ⟨some signer⟩)
    (hideal : ∀ content content' key,
      verifyAuto prim.base64Decode prim.schemes content (signer.sign content') key = true →
        content = content')
    (hserialize : ∀ r r', (prim.serializeRecord r).getD [] = (prim.serializeRecord r').getD [] →
      r = r')
    (hseq : record.sequenceNumber = 0) (hlocal : record.sourceNodeId = node.nodeId)
    (hstored : (storeRecordGlobal prim node now state record true).1 = true) :
    ∃ entry, (storeRecordGlobal prim node now state record true).2.records.get record.key =
        some entry ∧
      verifyDhtRecordSignatureForKey prim entry.record (recordTypeOfKey record.key) = false := by
  rw [snd_storeRecordGlobal_local hlocal hstored, records_insertGlobal, hsigner,
    signLocalRecord_eq]
  refine ⟨_, KeyedTable.get_insert_self _ _, ?_⟩
  refine verifySignedBy_of_other_content hideal rfl ?_
  -- the sequence numbers differ in what is signed and what is verified
  intro hcontent
  have hsignable := hserialize _ _ hcontent
  simp only [DhtRecordSignable.mk.injEq, DhtRecord.toSigned, SignedDhtRecord.new, hseq] at hsignable
  omega

end Synvoid.Mesh
