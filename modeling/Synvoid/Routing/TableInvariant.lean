import Synvoid.Framework.Transition
import Synvoid.Routing.Table

/-! # What the routing table keeps

    A table is as it should be (`Valid`) if no bucket has more than 20
    contacts, no id is there twice, the local id is not there, and every
    contact is in the bucket of its id. All operations find the bucket from the
    id and keep this, except one: `from_persisted` takes the bucket from the
    stored table, and the id from the stored string. A contact whose id is not
    the hash of its string, as one with a proof of work or one learned from a
    peer, is then in the wrong bucket (`restart_misplaces_contact`).

    Over whole runs, the table stays as it should be if and only if every
    restart finds contacts whose hashed strings belong to their buckets
    (`table_valid_iff`).
-/

namespace Synvoid.Routing

open Synvoid.Framework Synvoid.Mesh

/-! ## Section 1: The invariant -/

/-- What a table should be, for the id of its node. -/
structure RoutingTable.Valid (t : RoutingTable) : Prop where
  size : ∀ i, (t.buckets i).peers.length ≤ kSize
  distinct : (t.getAllContacts.map PeerContact.nodeId).Nodup
  notLocal : ∀ p ∈ t.getAllContacts, p.nodeId ≠ t.localNodeId
  placed : ∀ i, ∀ p ∈ (t.buckets i).peers, p.nodeId.bucketIndex t.localNodeId = i

def KBucket.ids (b : KBucket) : List NodeId := b.peers.map PeerContact.nodeId

/-- What bucket `i` should hold, by itself. -/
structure BucketValid (localId : NodeId) (i : Fin 256) (ids : List NodeId) : Prop where
  size : ids.length ≤ kSize
  distinct : ids.Nodup
  notLocal : localId ∉ ids
  placed : ∀ id ∈ ids, id.bucketIndex localId = i

theorem RoutingTable.mem_getAllContacts {t : RoutingTable} {p : PeerContact} :
    p ∈ t.getAllContacts ↔ ∃ i, p ∈ (t.buckets i).peers := by
  simp [getAllContacts]

theorem RoutingTable.ids_getAllContacts (t : RoutingTable) :
    t.getAllContacts.map PeerContact.nodeId =
      (List.finRange 256).flatMap fun i => (t.buckets i).ids := by
  unfold getAllContacts
  rw [List.map_flatMap]
  rfl

/-- Contacts in their own buckets do not meet. -/
theorem RoutingTable.nodup_flatMap_ids {t : RoutingTable}
    (h : ∀ i, BucketValid t.localNodeId i (t.buckets i).ids) {l : List (Fin 256)} (hl : l.Nodup) :
    (l.flatMap fun i => (t.buckets i).ids).Nodup := by
  rw [List.nodup_flatMap]
  refine ⟨fun i _ => (h i).distinct, hl.imp ?_⟩
  intro i j hne id hi hj
  exact hne (((h i).placed id hi).symm.trans ((h j).placed id hj))

/-- The buckets can be looked at one by one. -/
theorem RoutingTable.valid_iff {t : RoutingTable} :
    t.Valid ↔ ∀ i, BucketValid t.localNodeId i (t.buckets i).ids := by
  constructor
  · intro h i
    have hdistinct := h.distinct
    rw [ids_getAllContacts, List.nodup_flatMap] at hdistinct
    refine ⟨?_, hdistinct.1 i (List.mem_finRange i), ?_, ?_⟩
    · rw [KBucket.ids, List.length_map]
      exact h.size i
    · intro hmem
      obtain ⟨p, hp, hid⟩ := List.mem_map.mp hmem
      exact h.notLocal p (mem_getAllContacts.mpr ⟨i, hp⟩) hid
    · intro id hid
      obtain ⟨p, hp, rfl⟩ := List.mem_map.mp hid
      exact h.placed i p hp
  · intro h
    have hplaced : ∀ i, ∀ p ∈ (t.buckets i).peers, p.nodeId.bucketIndex t.localNodeId = i :=
      fun i p hp => (h i).placed _ (List.mem_map_of_mem hp)
    refine ⟨?_, ?_, ?_, hplaced⟩
    · intro i
      simpa [KBucket.ids] using (h i).size
    · rw [ids_getAllContacts]
      exact nodup_flatMap_ids h (List.nodup_finRange 256)
    · intro p hp hlocal
      obtain ⟨i, hi⟩ := mem_getAllContacts.mp hp
      exact (h i).notLocal (hlocal ▸ List.mem_map_of_mem hi)

/-- The other fields do not matter. -/
theorem RoutingTable.Valid.of_buckets_eq {t t' : RoutingTable} (h : t.Valid)
    (hlocal : t'.localNodeId = t.localNodeId) (hbuckets : t'.buckets = t.buckets) : t'.Valid := by
  rw [valid_iff] at h ⊢
  rw [hlocal, hbuckets]
  exact h

/-! ## Section 2: Changes of one bucket -/

/-- Some ids of bucket `i` are kept, in any order, and there may be a new one
    that belongs there. -/
inductive IdsChanged (localId : NodeId) (i : Fin 256) (ids : List NodeId) :
    List NodeId → Prop where
  | kept {keep ids' : List NodeId} : keep.Sublist ids → ids'.Perm keep →
    IdsChanged localId i ids ids'
  | added {keep ids' : List NodeId} {id : NodeId} : keep.Sublist ids → ids'.Perm (id :: keep) →
      id ∉ keep → keep.length < kSize → id ≠ localId → id.bucketIndex localId = i →
      IdsChanged localId i ids ids'

theorem IdsChanged.refl (localId : NodeId) (i : Fin 256) (ids : List NodeId) :
    IdsChanged localId i ids ids :=
  .kept (List.Sublist.refl ids) (List.Perm.refl ids)

section change
variable {localId : NodeId} {i : Fin 256} {ids ids' : List NodeId}

theorem BucketValid.sublist {keep : List NodeId} (h : BucketValid localId i ids)
    (hsub : keep.Sublist ids) : BucketValid localId i keep where
  size := hsub.length_le.trans h.size
  distinct := h.distinct.sublist hsub
  notLocal := fun hmem => h.notLocal (hsub.subset hmem)
  placed := fun id hid => h.placed id (hsub.subset hid)

theorem BucketValid.perm (h : BucketValid localId i ids) (hperm : ids'.Perm ids) :
    BucketValid localId i ids' where
  size := hperm.length_eq.trans_le h.size
  distinct := hperm.nodup_iff.mpr h.distinct
  notLocal := fun hmem => h.notLocal (hperm.mem_iff.mp hmem)
  placed := fun id hid => h.placed id (hperm.mem_iff.mp hid)

/-- Such a change keeps a bucket as it should be. -/
theorem BucketValid.changed (h : BucketValid localId i ids)
    (hchange : IdsChanged localId i ids ids') : BucketValid localId i ids' := by
  cases hchange with
  | kept hsub hperm => exact (h.sublist hsub).perm hperm
  | added hsub hperm hnew hroom hlocal hplace =>
    have hkeep := h.sublist hsub
    refine BucketValid.perm ⟨?_, ?_, ?_, ?_⟩ hperm
    · simpa using hroom
    · exact List.nodup_cons.mpr ⟨hnew, hkeep.distinct⟩
    · exact List.not_mem_cons_of_ne_of_not_mem hlocal.symm hkeep.notLocal
    · exact List.forall_mem_cons.mpr ⟨hplace, hkeep.placed⟩

end change

namespace KBucket

variable {b : KBucket} {now : Int} {nodeId : NodeId} {peer : PeerContact}

theorem get_eq_none : b.get nodeId = none ↔ nodeId ∉ b.ids := by
  simp [get, ids]

theorem of_get_eq_some {existing : PeerContact} (h : b.get nodeId = some existing) :
    existing.nodeId = nodeId ∧ nodeId ∈ b.ids := by
  have hid : existing.nodeId = nodeId := by simpa using List.find?_some h
  exact ⟨hid, hid ▸ List.mem_map_of_mem (List.mem_of_find?_eq_some h)⟩

theorem contains_iff : b.contains nodeId = true ↔ nodeId ∈ b.ids := by
  simp [contains, ids]

theorem length_ids (b : KBucket) : b.ids.length = b.peers.length := List.length_map _

theorem map_eraseP_nodeId (peers : List PeerContact) :
    (peers.eraseP fun p => p.nodeId = nodeId).map PeerContact.nodeId =
      (peers.map PeerContact.nodeId).erase nodeId := by
  rw [List.erase_eq_eraseP', List.eraseP_map]
  congr 1

theorem ids_moveToEnd :
    (b.moveToEnd now nodeId peer).ids = b.ids.erase nodeId ++ [peer.nodeId] := by
  show (b.peers.eraseP _ ++ [peer]).map PeerContact.nodeId = _
  rw [List.map_append, map_eraseP_nodeId]
  rfl

theorem ids_push : (b.push now peer).ids = b.ids ++ [peer.nodeId] := by
  simp [push, ids]

theorem ids_insert (b : KBucket) (now : Int) (peer : PeerContact) : (b.insert now peer).2.ids =
    if peer.nodeId ∈ b.ids then b.ids.erase peer.nodeId ++ [peer.nodeId]
    else if b.ids.length < kSize then b.ids ++ [peer.nodeId]
    else b.ids := by
  unfold insert
  cases hget : b.get peer.nodeId with
  | some existing =>
    obtain ⟨hid, hmem⟩ := of_get_eq_some hget
    rw [if_pos hmem]
    show (b.moveToEnd now peer.nodeId (existing.markSeen now)).ids = _
    rw [ids_moveToEnd]
    show b.ids.erase peer.nodeId ++ [existing.nodeId] = _
    rw [hid]
  | none =>
    rw [if_neg (get_eq_none.mp hget), length_ids]
    by_cases hroom : b.peers.length < kSize
    · rw [if_pos hroom]
      simp only [hroom, if_true]
      exact ids_push
    · rw [if_neg hroom]
      simp only [hroom, if_false]

theorem ids_markSeen : (b.markSeen now nodeId).2.ids = b.ids := by
  have hids : ∀ peers : List PeerContact,
      (updateFirst nodeId (PeerContact.markSeen now) peers).map PeerContact.nodeId =
        peers.map PeerContact.nodeId := by
    intro peers
    induction peers with
    | nil => rfl
    | cons p ps ih =>
      rw [updateFirst]
      split
      · rfl
      · rw [List.map_cons, List.map_cons, ih]
  unfold markSeen
  split
  · exact hids b.peers
  · rfl

theorem ids_remove : (b.remove now nodeId).2.ids = b.ids.erase nodeId := by
  unfold remove
  cases hget : b.get nodeId with
  | some removed => exact map_eraseP_nodeId b.peers
  | none => exact (List.erase_of_not_mem (get_eq_none.mp hget)).symm

variable {localId : NodeId} {i : Fin 256}

theorem remove_changed : IdsChanged localId i b.ids (b.remove now nodeId).2.ids := by
  rw [ids_remove]
  exact .kept List.erase_sublist (List.Perm.refl _)

theorem refresh_changed {ids : List NodeId} (hmem : nodeId ∈ ids) :
    IdsChanged localId i ids (ids.erase nodeId ++ [nodeId]) :=
  .kept (List.Sublist.refl ids)
    ((List.perm_append_singleton _ _).trans (List.perm_cons_erase hmem).symm)

/-- The new id goes behind what is kept, if there is room. -/
theorem append_changed {ids keep : List NodeId} (hlocal : nodeId ≠ localId)
    (hplace : nodeId.bucketIndex localId = i) (hsub : keep.Sublist ids) (hnew : nodeId ∉ ids)
    (hroom : keep.length < kSize) : IdsChanged localId i ids (keep ++ [nodeId]) :=
  .added hsub (List.perm_append_singleton _ _) (fun hmem => hnew (hsub.subset hmem)) hroom hlocal
    hplace

section placed
variable (hlocal : peer.nodeId ≠ localId) (hplace : peer.nodeId.bucketIndex localId = i)

include hlocal hplace

/-- After the removal of a contact, which may be none. -/
theorem insert_remove_changed (hnew : peer.nodeId ∉ b.ids) :
    IdsChanged localId i b.ids ((b.remove now nodeId).2.insert now peer).2.ids := by
  have hsub : (b.ids.erase nodeId).Sublist b.ids := List.erase_sublist
  rw [ids_insert, ids_remove, if_neg fun hmem => hnew (hsub.subset hmem)]
  split
  · next hroom => exact append_changed hlocal hplace hsub hnew hroom
  · exact .kept hsub (List.Perm.refl _)

theorem insert_changed (b : KBucket) (now : Int) :
    IdsChanged localId i b.ids (b.insert now peer).2.ids := by
  rw [ids_insert]
  split
  · next hmem => exact refresh_changed hmem
  · next hnew =>
    split
    · next hroom => exact append_changed hlocal hplace (List.Sublist.refl _) hnew hroom
    · exact .refl localId i b.ids

theorem tryInsert_changed (b : KBucket) (now : Int) (hsize : b.ids.length ≤ kSize) :
    IdsChanged localId i b.ids (b.tryInsert now peer).2.ids := by
  unfold tryInsert
  cases hget : b.get peer.nodeId with
  | some existing =>
    obtain ⟨hid, hmem⟩ := of_get_eq_some hget
    show IdsChanged localId i b.ids (b.moveToEnd now peer.nodeId (existing.markSeen now)).ids
    rw [ids_moveToEnd]
    show IdsChanged localId i b.ids (b.ids.erase peer.nodeId ++ [existing.nodeId])
    rw [hid]
    exact refresh_changed hmem
  | none =>
    have hnew := get_eq_none.mp hget
    by_cases hroom : b.peers.length < kSize
    · simp only [hroom, if_true]
      rw [ids_push]
      exact append_changed hlocal hplace (List.Sublist.refl _) hnew (by rwa [length_ids])
    · simp only [hroom, if_false]
      cases hpeers : b.peers with
      | nil => exact .refl localId i b.ids
      | cons oldest rest =>
        by_cases hstale : oldest.isStale now tryInsertStaleness = true
        · simp only [hstale, if_true]
          -- the oldest contact makes room
          have hids : b.ids = oldest.nodeId :: rest.map PeerContact.nodeId := by
            simp [ids, hpeers]
          have hsub : (rest.map PeerContact.nodeId).Sublist b.ids := by
            rw [hids]
            exact List.sublist_cons_self _ _
          show IdsChanged localId i b.ids ((rest ++ [peer]).map PeerContact.nodeId)
          rw [List.map_append]
          apply append_changed hlocal hplace hsub hnew
          rw [hids, List.length_cons] at hsize
          omega
        · simp only [hstale]
          exact .refl localId i b.ids

theorem forceReplace_changed (b : KBucket) (now : Int) :
    IdsChanged localId i b.ids (b.forceReplace now peer).2.ids := by
  unfold forceReplace
  cases hget : b.get peer.nodeId with
  | some existing =>
    show IdsChanged localId i b.ids (b.moveToEnd now peer.nodeId peer).ids
    rw [ids_moveToEnd]
    exact refresh_changed (of_get_eq_some hget).2
  | none =>
    by_cases hroom : b.peers.length < kSize
    · simp only [hroom, if_true]
      rw [ids_push]
      exact append_changed hlocal hplace (List.Sublist.refl _) (get_eq_none.mp hget)
        (by rwa [length_ids])
    · simp only [hroom, if_false]
      exact .refl localId i b.ids

end placed

end KBucket

/-! ## Section 3: Operations of the table -/

namespace RoutingTable

/-- The node stays, every bucket changes as it may, and the cache is left as
    it is or emptied. -/
structure Changed (t t' : RoutingTable) : Prop where
  sameNode : t'.localNodeId = t.localNodeId
  ids : ∀ i, IdsChanged t.localNodeId i (t.buckets i).ids (t'.buckets i).ids
  cache : t'.closestCache = t.closestCache ∨ t'.closestCache = ∅

theorem Changed.valid {t t' : RoutingTable} (h : t.Changed t') (hvalid : t.Valid) : t'.Valid := by
  rw [valid_iff] at hvalid ⊢
  intro i
  rw [h.sameNode]
  exact (hvalid i).changed (h.ids i)

theorem Changed.of_buckets_eq {t t' : RoutingTable} (hlocal : t'.localNodeId = t.localNodeId)
    (hbuckets : t'.buckets = t.buckets) (hcache : t'.closestCache = t.closestCache) :
    t.Changed t' := by
  refine ⟨hlocal, fun i => ?_, Or.inl hcache⟩
  rw [hbuckets]
  exact .refl _ i _

/-- Only one bucket is another. -/
theorem Changed.of_update {t t' : RoutingTable} {i : Fin 256} {b : KBucket}
    (hlocal : t'.localNodeId = t.localNodeId)
    (hbuckets : t'.buckets = Function.update t.buckets i b)
    (hcache : t'.closestCache = t.closestCache ∨ t'.closestCache = ∅)
    (h : IdsChanged t.localNodeId i (t.buckets i).ids b.ids) : t.Changed t' := by
  refine ⟨hlocal, fun j => ?_, hcache⟩
  rw [hbuckets]
  by_cases hj : j = i
  · subst hj
    rw [Function.update_self]
    exact h
  · rw [Function.update_of_ne hj]
    exact .refl _ j _

variable (sha256 : Sha256) (t : RoutingTable) (now : Int) (peer : PeerContact) (nodeId : NodeId)

theorem insertInto_changed (hlocal : peer.nodeId ≠ t.localNodeId) :
    t.Changed (t.insertInto now (peer.nodeId.bucketIndex t.localNodeId) peer).2 := by
  have hchange := KBucket.insert_changed hlocal rfl
    (t.buckets (peer.nodeId.bucketIndex t.localNodeId)) now
  unfold insertInto
  split
  · next hinsert =>
    rw [hinsert] at hchange
    exact .of_update rfl rfl (Or.inr rfl) hchange
  · next hinsert =>
    rw [hinsert] at hchange
    exact .of_update rfl rfl (Or.inl rfl) hchange

theorem markSeen_changed (i : Fin 256) :
    t.Changed (t.setBucket i ((t.buckets i).markSeen now nodeId).2) := by
  refine .of_update rfl rfl (Or.inl rfl) ?_
  rw [KBucket.ids_markSeen]
  exact .refl _ _ _

theorem insert_changed : t.Changed (t.insert sha256 now peer).2 := by
  unfold insert
  split
  · exact .of_buckets_eq rfl rfl rfl
  next hlocal =>
  split
  · exact .of_buckets_eq rfl rfl rfl
  simp only
  split
  · exact markSeen_changed t now peer.nodeId _
  next hcontains =>
  have hnew := mt KBucket.contains_iff.mpr hcontains
  split
  · split
    · split
      · exact .of_update rfl rfl (Or.inr rfl) (KBucket.insert_remove_changed hlocal rfl hnew)
      · exact .of_buckets_eq rfl rfl rfl
    · exact insertInto_changed t now peer hlocal
  · exact insertInto_changed t now peer hlocal

theorem tryInsert_changed (hvalid : t.Valid) : t.Changed (t.tryInsert sha256 now peer).2 := by
  unfold tryInsert
  split
  · exact .of_buckets_eq rfl rfl rfl
  next hlocal =>
  split
  · exact .of_buckets_eq rfl rfl rfl
  have hchange := KBucket.tryInsert_changed hlocal rfl
    (t.buckets (peer.nodeId.bucketIndex t.localNodeId)) now (valid_iff.mp hvalid _).size
  simp only
  split
  · exact .of_update rfl rfl (Or.inr rfl) hchange
  · exact .of_update rfl rfl (Or.inl rfl) hchange

theorem remove_changed : t.Changed (t.remove now nodeId).2 := by
  unfold remove
  simp only
  split
  · exact .of_update rfl rfl (Or.inr rfl) KBucket.remove_changed
  · exact .of_update rfl rfl (Or.inl rfl) KBucket.remove_changed

theorem markResponded_changed : t.Changed (t.markResponded now nodeId) := by
  have h := markSeen_changed t now nodeId (nodeId.bucketIndex t.localNodeId)
  exact ⟨h.sameNode, h.ids, h.cache⟩

theorem forceRestoreContact_changed : t.Changed (t.forceRestoreContact now peer).2 := by
  unfold forceRestoreContact
  split
  · exact .of_buckets_eq rfl rfl rfl
  next hlocal =>
  have hchange := KBucket.forceReplace_changed hlocal rfl
    (t.buckets (peer.nodeId.bucketIndex t.localNodeId)) now
  simp only
  split
  · next hreplace =>
    rw [hreplace] at hchange
    exact .of_update rfl rfl (Or.inl rfl) hchange
  · next hreplace =>
    rw [hreplace] at hchange
    exact .of_update rfl rfl (Or.inr rfl) hchange

end RoutingTable

/-! ## Section 4: Restarts -/

/-- The contacts of a stored bucket, one after the other. -/
def KBucket.restoreAll (sha256 : Sha256) (now : Int) (b : KBucket) (peers : List PersistedContact) :
    KBucket :=
  peers.foldl (fun b c => (b.insert now (c.restore sha256 now)).2) b

section restart
variable {sha256 : Sha256} {now : Int}

/-- All restored ids find room: they are there afterwards, each once. -/
theorem KBucket.ids_restoreAll (sha256 : Sha256) (now : Int) (b : KBucket)
    (peers : List PersistedContact)
    (hroom : b.ids.length + peers.length ≤ kSize) (hdistinct : b.ids.Nodup) :
    (b.restoreAll sha256 now peers).ids.length ≤ kSize ∧
    (b.restoreAll sha256 now peers).ids.Nodup ∧
    ∀ id, id ∈ (b.restoreAll sha256 now peers).ids ↔
      id ∈ b.ids ∨ ∃ c ∈ peers, NodeId.fromNodeIdString sha256 c.nodeId = id := by
  induction peers generalizing b with
  | nil => exact ⟨by simpa [restoreAll] using hroom, hdistinct, by simp [restoreAll]⟩
  | cons c peers ih =>
    rw [List.length_cons] at hroom
    have hids := b.ids_insert now (c.restore sha256 now)
    generalize hid : (c.restore sha256 now).nodeId = newId at hids
    have hnewId : NodeId.fromNodeIdString sha256 c.nodeId = newId := hid
    -- the new id is put at the end, and no other gets lost
    have hstep : (b.insert now (c.restore sha256 now)).2.ids.length ≤ b.ids.length + 1 ∧
        (b.insert now (c.restore sha256 now)).2.ids.Nodup ∧
        ∀ id, id ∈ (b.insert now (c.restore sha256 now)).2.ids ↔ id = newId ∨ id ∈ b.ids := by
      rw [hids]
      split
      · next hmem =>
        have hperm : (b.ids.erase newId ++ [newId]).Perm b.ids :=
          (List.perm_append_singleton _ _).trans (List.perm_cons_erase hmem).symm
        refine ⟨hperm.length_eq.trans_le (Nat.le_succ _), hperm.nodup_iff.mpr hdistinct, ?_⟩
        intro id
        rw [hperm.mem_iff]
        exact ⟨Or.inr, fun h => h.elim (fun heq => heq ▸ hmem) fun h => h⟩
      · next hnew =>
        have hperm : (b.ids ++ [newId]).Perm (newId :: b.ids) := List.perm_append_singleton _ _
        rw [if_pos (by omega)]
        refine ⟨hperm.length_eq.le, hperm.nodup_iff.mpr (List.nodup_cons.mpr ⟨hnew, hdistinct⟩), ?_⟩
        intro id
        rw [hperm.mem_iff, List.mem_cons]
    obtain ⟨hlength, hnodup, hmem⟩ := hstep
    obtain ⟨hsize, hdistinct', hall⟩ := ih _ (by omega) hnodup
    refine ⟨hsize, hdistinct', fun id => (hall id).trans ?_⟩
    rw [hmem, List.exists_mem_cons_iff, hnewId, eq_comm (a := id),
      or_comm (a := newId = id), or_assoc]

namespace RoutingTable

theorem setBucket_setBucket (t : RoutingTable) (i : Fin 256) (b b' : KBucket) :
    (t.setBucket i b).setBucket i b' = t.setBucket i b' := by
  simp [setBucket]

theorem restoreBucket_eq (t : RoutingTable) {pb : PersistedBucket} {i : Fin 256}
    (hindex : pb.index = i) :
    restoreBucket sha256 now t pb =
      t.setBucket i ((t.buckets i).restoreAll sha256 now pb.peers) := by
  obtain ⟨index, peers, lastUpdated⟩ := pb
  simp only at hindex
  subst hindex
  unfold restoreBucket KBucket.restoreAll
  rw [dif_pos i.isLt]
  induction peers generalizing t with
  | nil => simp [setBucket]
  | cons c peers ih =>
    rw [List.foldl_cons, List.foldl_cons, ih, setBucket_setBucket]
    simp [setBucket]

/-- Stored buckets with their own indices are restored one by one. -/
theorem foldl_restoreBucket (sha256 : Sha256) (now : Int) (f : Fin 256 → PersistedBucket)
    (hindex : ∀ i, (f i).index = i)
    {l : List (Fin 256)} (hl : l.Nodup) (t : RoutingTable) :
    ((l.map f).foldl (restoreBucket sha256 now) t).localNodeId = t.localNodeId ∧
    ∀ j, ((l.map f).foldl (restoreBucket sha256 now) t).buckets j =
      if j ∈ l then (t.buckets j).restoreAll sha256 now (f j).peers else t.buckets j := by
  induction l generalizing t with
  | nil => exact ⟨rfl, fun j => rfl⟩
  | cons i l ih =>
    rw [List.nodup_cons] at hl
    rw [List.map_cons, List.foldl_cons, restoreBucket_eq t (hindex i)]
    obtain ⟨hlocal, hbuckets⟩ := ih hl.2
      (t.setBucket i ((t.buckets i).restoreAll sha256 now (f i).peers))
    refine ⟨hlocal, fun j => (hbuckets j).trans ?_⟩
    by_cases hj : j = i
    · subst hj
      simp [hl.1, setBucket]
    · simp [hj, setBucket]

def restart (sha256 : Sha256) (t : RoutingTable) (stored : Int) (unixNow : Nat)
    (localNodeId : NodeId) (now : Int) : RoutingTable :=
  fromPersisted sha256 (t.toPersisted stored unixNow) localNodeId now

/-- The id of each stored string belongs to the bucket it is stored in. -/
def StringsPlaced (sha256 : Sha256) (localNodeId : NodeId) (t : RoutingTable) : Prop :=
  ∀ i, ∀ p ∈ (t.buckets i).peers,
    NodeId.fromNodeIdString sha256 p.nodeIdString ≠ localNodeId ∧
    (NodeId.fromNodeIdString sha256 p.nodeIdString).bucketIndex localNodeId = i

theorem valid_restart_iff {t : RoutingTable} (hvalid : t.Valid) (stored : Int) (unixNow : Nat)
    (localNodeId : NodeId) (now : Int) :
    (t.restart sha256 stored unixNow localNodeId now).Valid ↔
      t.StringsPlaced sha256 localNodeId := by
  have hrestored := foldl_restoreBucket sha256 now (fun i : Fin 256 =>
      { index := i.val
        peers := (t.buckets i).peers.map (PeerContact.toPersisted stored)
        lastUpdated := elapsed stored (t.buckets i).lastUpdated / nanosPerSec })
    (fun i => rfl) (List.nodup_finRange 256) (.new localNodeId t.localNodeIdString now)
  obtain ⟨hlocal, hbuckets⟩ := hrestored
  have hids := fun i : Fin 256 => KBucket.ids_restoreAll sha256 now (.new i.val now)
    ((t.buckets i).peers.map (PeerContact.toPersisted stored))
    (by simpa [KBucket.ids, KBucket.new] using hvalid.size i) List.nodup_nil
  rw [valid_iff]
  refine forall_congr' fun i => ?_
  have hbucket : ((t.restart sha256 stored unixNow localNodeId now).buckets i).ids =
      (KBucket.restoreAll sha256 now (.new i now)
        ((t.buckets i).peers.map (PeerContact.toPersisted stored))).ids := by
    have := hbuckets i
    rw [if_pos (List.mem_finRange i)] at this
    exact congrArg KBucket.ids this
  have hnode : (t.restart sha256 stored unixNow localNodeId now).localNodeId = localNodeId := hlocal
  obtain ⟨hsize, hdistinct, hmem⟩ := hids i
  rw [hnode, hbucket]
  have hmem' : ∀ id, id ∈ (KBucket.restoreAll sha256 now (.new i now)
      ((t.buckets i).peers.map (PeerContact.toPersisted stored))).ids ↔
        ∃ p ∈ (t.buckets i).peers, NodeId.fromNodeIdString sha256 p.nodeIdString = id := by
    intro id
    rw [hmem]
    simp [KBucket.ids, KBucket.new, PeerContact.toPersisted]
  constructor
  · intro h p hp
    have hin := (hmem' _).mpr ⟨p, hp, rfl⟩
    exact ⟨fun heq => h.notLocal (heq ▸ hin), h.placed _ hin⟩
  · intro h
    refine ⟨hsize, hdistinct, ?_, ?_⟩
    · intro hin
      obtain ⟨p, hp, heq⟩ := (hmem' _).mp hin
      exact (h p hp).1 heq
    · intro id hin
      obtain ⟨p, hp, rfl⟩ := (hmem' _).mp hin
      exact (h p hp).2

end RoutingTable

end restart

/-! ## Section 5: Runs -/

inductive TableOp where
  | insert (now : Int) (peer : PeerContact)
  | tryInsert (now : Int) (peer : PeerContact)
  | remove (now : Int) (nodeId : NodeId)
  | markResponded (now : Int) (nodeId : NodeId)
  | forceRestoreContact (now : Int) (contact : PeerContact)
  | restart (stored : Int) (unixNow : Nat) (localNodeId : NodeId) (now : Int)

def TableOp.run (sha256 : Sha256) (t : RoutingTable) : TableOp → RoutingTable
  | insert now peer => (t.insert sha256 now peer).2
  | tryInsert now peer => (t.tryInsert sha256 now peer).2
  | remove now nodeId => (t.remove now nodeId).2
  | markResponded now nodeId => t.markResponded now nodeId
  | forceRestoreContact now contact => (t.forceRestoreContact now contact).2
  | restart stored unixNow localNodeId now => t.restart sha256 stored unixNow localNodeId now

/-- A new table, with any stale duration. -/
def RoutingTable.Initial (t : RoutingTable) : Prop :=
  ∃ localNodeId localNodeIdString now duration,
    t = (RoutingTable.new localNodeId localNodeIdString now).withStaleDuration duration

def tableSystem (sha256 : Sha256) : System RoutingTable TableOp where
  init := RoutingTable.Initial
  step := fun t op t' => t' = op.run sha256 t

theorem RoutingTable.Initial.valid {t : RoutingTable} (h : t.Initial) : t.Valid := by
  obtain ⟨localNodeId, localNodeIdString, now, duration, rfl⟩ := h
  rw [valid_iff]
  intro i
  exact ⟨Nat.zero_le _, List.nodup_nil, List.not_mem_nil, fun id hid => absurd hid List.not_mem_nil⟩

/-- Restarts are the only operations with a condition. -/
def TableOp.Ok (sha256 : Sha256) (t : RoutingTable) : TableOp → Prop
  | restart _ _ localNodeId _ => t.StringsPlaced sha256 localNodeId
  | _ => True

theorem TableOp.valid_run_iff {sha256 : Sha256} {t : RoutingTable} (hvalid : t.Valid)
    (op : TableOp) :
    (op.run sha256 t).Valid ↔ op.Ok sha256 t := by
  have hkept : ∀ {t' : RoutingTable}, t.Changed t' → (t'.Valid ↔ True) :=
    fun hchange => iff_true_intro (hchange.valid hvalid)
  cases op with
  | insert now peer => exact hkept (t.insert_changed sha256 now peer)
  | tryInsert now peer => exact hkept (t.tryInsert_changed sha256 now peer hvalid)
  | remove now nodeId => exact hkept (t.remove_changed now nodeId)
  | markResponded now nodeId => exact hkept (t.markResponded_changed now nodeId)
  | forceRestoreContact now contact => exact hkept (t.forceRestoreContact_changed now contact)
  | restart stored unixNow localNodeId now =>
    exact RoutingTable.valid_restart_iff hvalid stored unixNow localNodeId now

/-- **Routing table invariant.** All tables of a run are as they should be if
    and only if every restart finds contacts whose strings hash into their
    buckets, and none to the local id. -/
theorem table_valid_iff (sha256 : Sha256) {tr : List (RoutingTable × TableOp)} {t : RoutingTable}
    (h : (tableSystem sha256).Exec tr t) :
    (∀ t' ∈ tr.map Prod.fst ++ [t], t'.Valid) ↔ ∀ step ∈ tr, step.2.Ok sha256 step.1 := by
  refine System.Exec.states_iff RoutingTable.Valid (fun t op => op.Ok sha256 t) ?_ ?_ h
  · intro t ht
    exact ht.valid
  · intro t op t' hvalid hstep
    obtain rfl : t' = op.run sha256 t := hstep
    exact op.valid_run_iff hvalid

/-! ### A contact before and after a restart -/

/-- The hash of `peer-a`. -/
def peerADigest : Bytes :=
  [189, 185, 76, 115, 213, 60, 68, 2, 58, 113, 90, 41, 112, 161, 12, 77, 84, 250, 149, 80, 183, 15,
    217, 211, 76, 196, 176, 162, 222, 93, 220, 190]

/-- The hash of `peer-a`, and zeros for all else. -/
def peerASha256 : Sha256 where
  digest := fun data => if data = asBytes "peer-a" then peerADigest else List.replicate 32 0
  length_digest := by
    intro data
    split <;> rfl

theorem bytes_fromNodeIdString_peerA :
    (NodeId.fromNodeIdString peerASha256 "peer-a").bytes = peerADigest := by
  show (if asBytes "peer-a" = asBytes "peer-a" then peerADigest else List.replicate 32 0) = _
  rw [if_pos rfl]

def zeroId : NodeId := ⟨List.replicate 32 0, rfl⟩

def globalPeer (nodeId : NodeId) : PeerContact :=
  { PeerContact.new nodeId "peer-a" "192.0.2.1" 443 0 with isGlobal := true }

/-- A new table of the node with the zero id, to which a contact is added. -/
def tableWith (nodeId : NodeId) : RoutingTable :=
  ((RoutingTable.new zeroId "local" 0).insert peerASha256 0 (globalPeer nodeId)).2

theorem peers_tableWith {nodeId : NodeId} (h : nodeId ≠ zeroId) (i : Fin 256) :
    ((tableWith nodeId).buckets i).peers =
      if i = nodeId.bucketIndex zeroId then [globalPeer nodeId] else [] := by
  have hbuckets : (tableWith nodeId).buckets = Function.update
      (RoutingTable.new zeroId "local" 0).buckets (nodeId.bucketIndex zeroId)
      ⟨nodeId.bucketIndex zeroId, [globalPeer nodeId], 0⟩ := by
    have hne : (globalPeer nodeId).nodeId ≠ (RoutingTable.new zeroId "local" 0).localNodeId := h
    unfold tableWith RoutingTable.insert
    rw [if_neg hne]
    rfl
  rw [hbuckets]
  split
  · next hi =>
    subst hi
    rw [Function.update_self]
  · next hi =>
    rw [Function.update_of_ne hi]
    rfl

def peerAId : NodeId := ⟨peerADigest, rfl⟩

def lastBitId : NodeId := ⟨List.replicate 31 0 ++ [1], rfl⟩

/-- Ids in the farthest bucket of the zero id. -/
def farId (firstByte : UInt8) : NodeId := ⟨firstByte :: List.replicate 31 0, rfl⟩

theorem initial_zero : (RoutingTable.new zeroId "local" 0).Initial :=
  ⟨zeroId, "local", 0, defaultStaleDuration, rfl⟩

theorem valid_tableWith (nodeId : NodeId) : (tableWith nodeId).Valid :=
  (RoutingTable.insert_changed _ _ _ _).valid initial_zero.valid

theorem exec_tableWith (nodeId : NodeId) : (tableSystem peerASha256).Exec
    [(.new zeroId "local" 0, .insert 0 (globalPeer nodeId))] (tableWith nodeId) := by
  have hnew : (tableSystem peerASha256).Exec [] (.new zeroId "local" 0) := .nil initial_zero
  exact hnew.snoc rfl

theorem stringsPlaced_tableWith_iff {nodeId : NodeId} (h : nodeId ≠ zeroId) :
    (tableWith nodeId).StringsPlaced peerASha256 zeroId ↔
      peerAId.bucketIndex zeroId = nodeId.bucketIndex zeroId := by
  have hid : NodeId.fromNodeIdString peerASha256 "peer-a" = peerAId :=
    NodeId.ext_bytes bytes_fromNodeIdString_peerA
  have hne : peerAId ≠ zeroId := by decide
  constructor
  · intro hplaced
    have hp := hplaced (nodeId.bucketIndex zeroId) (globalPeer nodeId)
      (by simp [peers_tableWith h])
    rw [← hid]
    exact hp.2
  · intro hsame i p hp
    rw [peers_tableWith h] at hp
    split at hp
    · next hi =>
      obtain rfl : p = globalPeer nodeId := by simpa using hp
      show NodeId.fromNodeIdString peerASha256 "peer-a" ≠ zeroId ∧
        (NodeId.fromNodeIdString peerASha256 "peer-a").bucketIndex zeroId = i
      rw [hid, hsame, hi]
      exact ⟨hne, rfl⟩
    · cases hp

theorem restart_step (sha256 : Sha256) (t : RoutingTable) (stored : Int) (unixNow : Nat)
    (localNodeId : NodeId) (now : Int) :
    (tableSystem sha256).step t (.restart stored unixNow localNodeId now)
      (t.restart sha256 stored unixNow localNodeId now) := rfl

/-- A contact with the hash of its string survives a restart. -/
theorem restart_keeps_hashed_contact :
    ((tableWith peerAId).restart peerASha256 1 0 zeroId 2).Valid := by
  have hexec :=
    (exec_tableWith peerAId).snoc (restart_step peerASha256 (tableWith peerAId) 1 0 zeroId 2)
  refine (table_valid_iff peerASha256 hexec).mpr ?_ _
    (List.mem_append_right _ (List.mem_singleton_self _))
  intro step hstep
  rcases List.mem_pair.mp hstep with rfl | rfl
  · exact trivial
  · exact (stringsPlaced_tableWith_iff (by decide)).mpr rfl

/-- A contact learned with an id that differs from the local one in the last
    bit comes back in the wrong bucket. -/
theorem restart_misplaces_contact :
    ¬ ∀ tr t, (tableSystem peerASha256).Exec tr t → t.Valid := by
  intro hall
  have hexec := exec_tableWith lastBitId
  have hrestart :=
    hall _ _ (hexec.snoc (restart_step peerASha256 (tableWith lastBitId) 1 0 zeroId 2))
  rw [RoutingTable.valid_restart_iff (valid_tableWith lastBitId),
    stringsPlaced_tableWith_iff (by decide)] at hrestart
  exact absurd hrestart (by decide +kernel)

end Synvoid.Routing
