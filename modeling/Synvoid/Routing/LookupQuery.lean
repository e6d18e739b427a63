import Mathlib.Data.Finset.Insert
import Mathlib.Data.Finset.Lattice.Lemmas
import Synvoid.Routing.FindClosest

/-! # Iterative lookups

    Model of `LookupQuery` in `dht/routing/query.rs`. A lookup asks peers for
    others that are closer to its target. It keeps the closest peers it has
    heard of (`closest`), those that it has still to ask (`pending`), and the
    ids that it has asked (`contacted`). The two lists are cut after 20 peers.

    A peer that was cut off may be offered again, and a peer that was asked is
    not looked at any more. Still, after any number of answers the closest
    peers are those of all that have ever been offered
    (`lookup_bookkeeping`).
-/

namespace Synvoid.Routing

open Synvoid.Framework Synvoid.Mesh RoutingTable

/-! ## Section 1: The query -/

/-- `ALPHA`. -/
def lookupAlpha : Nat := 3

structure LookupQuery where
  target : NodeId
  contacted : Finset NodeId
  closest : List PeerContact
  pending : List PeerContact
  alpha : Nat
  completed : Bool

/-- The peers that are not in `contacted` or `seen`, each id once: the loop
    with the set `seen`. -/
def unseenPeers (contacted : Finset NodeId) : Finset NodeId → List PeerContact → List PeerContact
  | _, [] => []
  | seen, peer :: peers =>
      if peer.nodeId ∉ contacted ∧ peer.nodeId ∉ seen then
        peer :: unseenPeers contacted (insert peer.nodeId seen) peers
      else unseenPeers contacted seen peers

/-- The ids of peers, as a set. -/
def idSet (peers : List PeerContact) : Finset NodeId := (peers.map PeerContact.nodeId).toFinset

/-- The second loop of `next_peers_to_query`. -/
def fillUp (contacted : Finset NodeId) (alpha : Nat) :
    Finset NodeId → List PeerContact → List PeerContact → List PeerContact
  | _, toQuery, [] => toQuery
  | seen, toQuery, peer :: peers =>
      if peer.nodeId ∉ contacted ∧ peer.nodeId ∉ seen then
        -- the id is seen from now on, also if there is no room for the peer
        fillUp contacted alpha (insert peer.nodeId seen)
          (if toQuery.length < alpha then toQuery ++ [peer] else toQuery) peers
      else fillUp contacted alpha seen toQuery peers

namespace LookupQuery

def sortAndTruncate (target : NodeId) (peers : List PeerContact) : List PeerContact :=
  (sortByDist (distanceTo target) peers).take kSize

def new (target : NodeId) : LookupQuery :=
  { target
    contacted := ∅
    closest := []
    pending := []
    alpha := lookupAlpha
    completed := false }

def withAlpha (q : LookupQuery) (alpha : Nat) : LookupQuery := { q with alpha }

def init (q : LookupQuery) (initialPeers : List PeerContact) : LookupQuery :=
  let unseen := unseenPeers q.contacted ∅ initialPeers
  { q with
    closest := sortAndTruncate q.target (q.closest ++ unseen)
    pending := sortAndTruncate q.target (q.pending ++ unseen) }

def nextPeersToQuery (q : LookupQuery) : List PeerContact :=
  if q.completed then []
  else
    let toQuery := unseenPeers q.contacted ∅ q.pending
    if toQuery.length < q.alpha then
      fillUp q.contacted q.alpha (idSet toQuery) toQuery q.closest
    else toQuery

def markQueried (q : LookupQuery) (peer : PeerContact) : LookupQuery :=
  { q with
    contacted := insert peer.nodeId q.contacted
    pending := q.pending.filter fun p => p.nodeId ≠ peer.nodeId }

/-- One returned peer, with the variable `added`. -/
def addReturned (state : LookupQuery × Bool) (newPeer : PeerContact) : LookupQuery × Bool :=
  let (q, added) := state
  if newPeer.nodeId ∈ q.contacted then (q, added)
  else
    let known := q.closest.any fun p => p.nodeId = newPeer.nodeId
    let waiting := q.pending.any fun p => p.nodeId = newPeer.nodeId
    ({ q with
        closest := if known then q.closest else q.closest ++ [newPeer]
        pending := if waiting then q.pending else q.pending ++ [newPeer] },
      added || !known)

def processResponse (q : LookupQuery) (peer : PeerContact) (newPeers : List PeerContact) :
    LookupQuery :=
  let (q, added) := newPeers.foldl addReturned (q.markQueried peer, false)
  if added then
    { q with
      closest := sortAndTruncate q.target q.closest
      pending := sortAndTruncate q.target q.pending }
  else q

end LookupQuery

/-! ## Section 2: Unseen peers -/

@[simp]
theorem idSet_nil : idSet [] = ∅ := rfl

@[simp]
theorem idSet_append (l l' : List PeerContact) : idSet (l ++ l') = idSet l ∪ idSet l' := by
  simp [idSet]

theorem idSet_cons (p : PeerContact) (l : List PeerContact) :
    idSet (p :: l) = insert p.nodeId (idSet l) := by
  simp [idSet]

theorem mem_idSet {id : NodeId} {l : List PeerContact} :
    id ∈ idSet l ↔ ∃ p ∈ l, p.nodeId = id := by
  simp [idSet]

theorem idSet_subset {l l' : List PeerContact} (h : ∀ p ∈ l, p ∈ l') : idSet l ⊆ idSet l' := by
  intro id hid
  obtain ⟨p, hp, rfl⟩ := mem_idSet.mp hid
  exact mem_idSet.mpr ⟨p, h p hp, rfl⟩

theorem any_nodeId_iff {l : List PeerContact} {id : NodeId} :
    (l.any fun p => p.nodeId = id) = true ↔ id ∈ idSet l := by
  simp [mem_idSet]

section unseen
variable {contacted seen : Finset NodeId} {l : List PeerContact}

theorem mem_of_mem_unseenPeers {p : PeerContact} (h : p ∈ unseenPeers contacted seen l) :
    p ∈ l ∧ p.nodeId ∉ contacted ∧ p.nodeId ∉ seen := by
  induction l generalizing seen with
  | nil => cases h
  | cons peer l ih =>
    rw [unseenPeers] at h
    split at h
    · next hnew =>
      rcases List.mem_cons.mp h with rfl | h
      · exact ⟨List.mem_cons_self, hnew⟩
      · obtain ⟨hmem, hcontacted, hseen⟩ := ih h
        exact ⟨List.mem_cons_of_mem _ hmem, hcontacted,
          fun hid => hseen (Finset.mem_insert_of_mem hid)⟩
    · obtain ⟨hmem, hnew⟩ := ih h
      exact ⟨List.mem_cons_of_mem _ hmem, hnew⟩

theorem nodup_ids_unseenPeers (contacted seen : Finset NodeId) (l : List PeerContact) :
    ((unseenPeers contacted seen l).map PeerContact.nodeId).Nodup := by
  induction l generalizing seen with
  | nil => exact List.nodup_nil
  | cons peer l ih =>
    rw [unseenPeers]
    split
    · refine List.nodup_cons.mpr ⟨?_, ih _⟩
      intro hmem
      obtain ⟨p, hp, hid⟩ := List.mem_map.mp hmem
      exact (mem_of_mem_unseenPeers hp).2.2 (hid ▸ Finset.mem_insert_self _ _)
    · exact ih seen

/-- Every id is found, or was seen before. -/
theorem union_idSet_unseenPeers (seen : Finset NodeId) (l : List PeerContact) :
    seen ∪ idSet (unseenPeers ∅ seen l) = seen ∪ idSet l := by
  induction l generalizing seen with
  | nil => rfl
  | cons peer l ih =>
    rw [unseenPeers, idSet_cons]
    split
    · rw [idSet_cons, Finset.union_insert, ← Finset.insert_union, ih, Finset.insert_union,
        Finset.union_insert]
    · next hold =>
      have hseen : peer.nodeId ∈ seen := by simpa using hold
      rw [ih, Finset.union_insert, Finset.insert_eq_self.mpr (Finset.mem_union_left _ hseen)]

theorem unseenPeers_append (contacted seen : Finset NodeId) (l l' : List PeerContact) :
    unseenPeers contacted seen (l ++ l') =
      unseenPeers contacted seen l ++
        unseenPeers contacted (seen ∪ idSet (unseenPeers contacted seen l)) l' := by
  induction l generalizing seen with
  | nil => simp [unseenPeers]
  | cons peer l ih =>
    rw [List.cons_append, unseenPeers, unseenPeers]
    split
    · rw [ih, idSet_cons, Finset.insert_union, Finset.union_insert]
      rfl
    · exact ih seen

/-- Further ids are left out at the end, or from the start. -/
theorem filter_unseenPeers {known : Finset NodeId} (h : contacted ⊆ known) (seen : Finset NodeId)
    (l : List PeerContact) :
    (unseenPeers contacted seen l).filter (fun p => p.nodeId ∉ known) =
      unseenPeers ∅ (known ∪ seen) l := by
  induction l generalizing seen with
  | nil => rfl
  | cons peer l ih =>
    rw [unseenPeers, unseenPeers]
    by_cases hknown : peer.nodeId ∈ known
    · have hskip : ¬ (peer.nodeId ∉ (∅ : Finset NodeId) ∧ peer.nodeId ∉ known ∪ seen) := by
        simp [hknown]
      rw [if_neg hskip]
      split
      · rw [List.filter_cons_of_neg (by simpa using hknown), ih, Finset.union_insert,
          Finset.insert_eq_self.mpr (Finset.mem_union_left _ hknown)]
      · exact ih seen
    · have hcontacted : peer.nodeId ∉ contacted := fun hmem => hknown (h hmem)
      by_cases hseen : peer.nodeId ∈ seen
      · rw [if_neg (by simp [hseen]), if_neg (by simp [hseen])]
        exact ih seen
      · rw [if_pos ⟨hcontacted, hseen⟩, if_pos (by simp [hknown, hseen]),
          List.filter_cons_of_pos (by simpa using hknown), ih, Finset.union_insert]

end unseen

/-! ## Section 3: The operations -/

namespace LookupQuery

/-- The loop over the returned peers adds those that are unseen, to each list
    by itself. -/
theorem foldl_addReturned (newPeers : List PeerContact) (q : LookupQuery) (added : Bool) :
    newPeers.foldl addReturned (q, added) =
      ({ q with
          closest := q.closest ++ unseenPeers q.contacted (idSet q.closest) newPeers
          pending := q.pending ++ unseenPeers q.contacted (idSet q.pending) newPeers },
        added || !(unseenPeers q.contacted (idSet q.closest) newPeers).isEmpty) := by
  induction newPeers generalizing q added with
  | nil => simp [unseenPeers]
  | cons peer newPeers ih =>
    have hsplit : ∀ l : List PeerContact, peer.nodeId ∉ q.contacted →
        (if (l.any fun p => p.nodeId = peer.nodeId) = true then l else l ++ [peer]) ++
          unseenPeers q.contacted (idSet
            (if (l.any fun p => p.nodeId = peer.nodeId) = true then l else l ++ [peer])) newPeers =
        l ++ unseenPeers q.contacted (idSet l) (peer :: newPeers) := by
      intro l hnew
      rw [unseenPeers]
      by_cases hany : (l.any fun p => p.nodeId = peer.nodeId) = true
      · rw [if_pos hany, if_neg (fun h => h.2 (any_nodeId_iff.mp hany))]
      · rw [if_neg hany, if_pos ⟨hnew, fun h => hany (any_nodeId_iff.mpr h)⟩, idSet_append,
          Finset.union_comm, idSet_cons, idSet_nil, Finset.insert_union, Finset.empty_union,
          List.append_assoc]
        rfl
    rw [List.foldl_cons, addReturned]
    by_cases hcontacted : peer.nodeId ∈ q.contacted
    · simp only [if_pos hcontacted]
      rw [ih, unseenPeers, unseenPeers, if_neg (fun h => h.1 hcontacted),
        if_neg (fun h => h.1 hcontacted)]
    · simp only [if_neg hcontacted]
      rw [ih]
      simp only [hsplit _ hcontacted]
      rw [Prod.mk.injEq]
      refine ⟨rfl, ?_⟩
      by_cases hany : (q.closest.any fun p => p.nodeId = peer.nodeId) = true
      · have hin : ¬ (peer.nodeId ∉ q.contacted ∧ peer.nodeId ∉ idSet q.closest) :=
          fun h => h.2 (any_nodeId_iff.mp hany)
        rw [unseenPeers, if_neg hin, hany]
        simp
      · have hin : peer.nodeId ∉ q.contacted ∧ peer.nodeId ∉ idSet q.closest :=
          ⟨hcontacted, fun h => hany (any_nodeId_iff.mpr h)⟩
        rw [unseenPeers, if_pos hin, Bool.eq_false_iff.mpr hany]
        simp

theorem mem_fillUp {contacted : Finset NodeId} {alpha : Nat} {seen : Finset NodeId}
    {toQuery peers : List PeerContact} {p : PeerContact}
    (h : p ∈ fillUp contacted alpha seen toQuery peers) :
    p ∈ toQuery ∨ p ∈ peers ∧ p.nodeId ∉ contacted := by
  induction peers generalizing seen toQuery with
  | nil => exact Or.inl h
  | cons peer peers ih =>
    rw [fillUp] at h
    split at h
    · next hnew =>
      rcases ih h with h | ⟨h, hcontacted⟩
      · split at h
        · rcases List.mem_append.mp h with h | h
          · exact Or.inl h
          · obtain rfl := List.mem_singleton.mp h
            exact Or.inr ⟨List.mem_cons_self, hnew.1⟩
        · exact Or.inl h
      · exact Or.inr ⟨List.mem_cons_of_mem _ h, hcontacted⟩
    · rcases ih h with h | ⟨h, hcontacted⟩
      · exact Or.inl h
      · exact Or.inr ⟨List.mem_cons_of_mem _ h, hcontacted⟩

/-- What is to be asked is known and was not asked. -/
theorem mem_nextPeersToQuery {q : LookupQuery} {p : PeerContact} (h : p ∈ q.nextPeersToQuery) :
    (p ∈ q.pending ∨ p ∈ q.closest) ∧ p.nodeId ∉ q.contacted := by
  have hpending : p ∈ unseenPeers q.contacted ∅ q.pending →
      (p ∈ q.pending ∨ p ∈ q.closest) ∧ p.nodeId ∉ q.contacted := by
    intro hmem
    obtain ⟨hmem, hnew, -⟩ := mem_of_mem_unseenPeers hmem
    exact ⟨Or.inl hmem, hnew⟩
  unfold nextPeersToQuery at h
  split at h
  · cases h
  · simp only at h
    split at h
    · rcases mem_fillUp h with h | ⟨h, hnew⟩
      · exact hpending h
      · exact ⟨Or.inr h, hnew⟩
    · exact hpending h

theorem mem_of_mem_sortAndTruncate {target : NodeId} {peers : List PeerContact} {p : PeerContact}
    (h : p ∈ sortAndTruncate target peers) : p ∈ peers :=
  (sortByDist_perm _ peers).mem_iff.mp (List.mem_of_mem_take h)

/-- The returned peers that are closer, or at least new. -/
def addedBy (q : LookupQuery) (peer : PeerContact) (newPeers : List PeerContact) :
    List PeerContact :=
  unseenPeers (insert peer.nodeId q.contacted) (idSet q.closest) newPeers

/-- What is to be asked after an answer, before it is sorted and cut. -/
def waitingAfter (q : LookupQuery) (peer : PeerContact) (newPeers : List PeerContact) :
    List PeerContact :=
  (q.markQueried peer).pending ++
    unseenPeers (insert peer.nodeId q.contacted) (idSet (q.markQueried peer).pending) newPeers

theorem processResponse_eq (q : LookupQuery) (peer : PeerContact) (newPeers : List PeerContact) :
    q.processResponse peer newPeers =
      if q.addedBy peer newPeers = [] then
        { q with
          contacted := insert peer.nodeId q.contacted
          pending := q.waitingAfter peer newPeers }
      else
        { q with
          contacted := insert peer.nodeId q.contacted
          closest := sortAndTruncate q.target (q.closest ++ q.addedBy peer newPeers)
          pending := sortAndTruncate q.target (q.waitingAfter peer newPeers) } := by
  unfold processResponse
  rw [foldl_addReturned]
  simp only [Bool.false_or]
  show (if (!(q.addedBy peer newPeers).isEmpty) = true then _ else _) = _
  by_cases hadded : q.addedBy peer newPeers = []
  · rw [if_pos hadded, hadded]
    simp only [List.isEmpty_nil, Bool.not_true, Bool.false_eq_true, if_false]
    show ({ q with
      contacted := insert peer.nodeId q.contacted
      closest := q.closest ++ q.addedBy peer newPeers
      pending := q.waitingAfter peer newPeers } : LookupQuery) = _
    rw [hadded, List.append_nil]
  · rw [if_neg hadded, if_pos (by simpa using hadded)]
    rfl

theorem mem_waitingAfter {q : LookupQuery} {peer : PeerContact} {newPeers : List PeerContact}
    {p : PeerContact} (h : p ∈ q.waitingAfter peer newPeers)
    (hpending : ∀ p ∈ q.pending, p.nodeId ∉ q.contacted) :
    (p ∈ q.pending ∨ p ∈ newPeers) ∧ p.nodeId ∉ insert peer.nodeId q.contacted := by
  rcases List.mem_append.mp h with h | h
  · obtain ⟨hmem, hother⟩ := List.mem_filter.mp h
    refine ⟨Or.inl hmem, ?_⟩
    rw [Finset.mem_insert]
    rintro (heq | hcontacted)
    · simp [heq] at hother
    · exact hpending p hmem hcontacted
  · obtain ⟨hmem, hnew, -⟩ := mem_of_mem_unseenPeers h
    exact ⟨Or.inr hmem, hnew⟩

end LookupQuery

/-! ## Section 4: Runs -/

/-- A query with the peers that were offered to it and the ids that have
    answered. -/
structure TrackedLookup where
  query : LookupQuery
  offered : List PeerContact
  responded : List NodeId

structure LookupResponse where
  peer : PeerContact
  newPeers : List PeerContact

/-- A lookup starts with some peers. Answers come from peers that were to be
    asked. -/
def lookupSystem : System TrackedLookup LookupResponse where
  init := fun s => ∃ target alpha peers,
    s = ⟨((LookupQuery.new target).withAlpha alpha).init peers, peers, []⟩
  step := fun s response s' =>
    response.peer ∈ s.query.nextPeersToQuery ∧
    s' = ⟨s.query.processResponse response.peer response.newPeers,
      s.offered ++ response.newPeers, response.peer.nodeId :: s.responded⟩

/-- One contact for each id that was offered: the first one. -/
def distinctOffers (offered : List PeerContact) : List PeerContact := unseenPeers ∅ ∅ offered

structure Bookkept (s : TrackedLookup) : Prop where
  sorted : s.query.closest.Pairwise fun a b =>
    distanceTo s.query.target a < distanceTo s.query.target b
  distinct : (s.query.closest.map PeerContact.nodeId).Nodup
  nearest : IsNearest (distanceTo s.query.target) kSize (distinctOffers s.offered) s.query.closest
  pending : ∀ p ∈ s.query.pending, p.nodeId ∉ s.responded
  next : ∀ p ∈ s.query.nextPeersToQuery, p.nodeId ∉ s.responded

/-- What holds along a run. -/
structure LookupInv (s : TrackedLookup) : Prop where
  sorted : s.query.closest.Pairwise fun a b =>
    distanceTo s.query.target a < distanceTo s.query.target b
  nearest : IsNearest (distanceTo s.query.target) kSize (distinctOffers s.offered) s.query.closest
  pendingOffered : ∀ p ∈ s.query.pending, p ∈ s.offered
  pendingNew : ∀ p ∈ s.query.pending, p.nodeId ∉ s.query.contacted
  contactedOffered : s.query.contacted ⊆ idSet s.offered
  contacted_iff : ∀ id, id ∈ s.query.contacted ↔ id ∈ s.responded

theorem idSet_distinctOffers (offered : List PeerContact) :
    idSet (distinctOffers offered) = idSet offered := by
  have h := union_idSet_unseenPeers ∅ offered
  rwa [Finset.empty_union, Finset.empty_union] at h

theorem mem_offered_of_distinct {offered : List PeerContact} {p : PeerContact}
    (h : p ∈ distinctOffers offered) : p ∈ offered :=
  (mem_of_mem_unseenPeers h).1

/-- Distances differ as ids do. -/
theorem nodup_distances_iff {target : NodeId} {l : List PeerContact} :
    (l.map (distanceTo target)).Nodup ↔ (l.map PeerContact.nodeId).Nodup := by
  have hmap : l.map (distanceTo target) = (l.map PeerContact.nodeId).map target.xorDistance := by
    rw [List.map_map]
    rfl
  rw [hmap]
  exact List.nodup_map_iff target.xorDistance_injective

theorem distance_mem_iff {target : NodeId} {l : List PeerContact} {p : PeerContact} :
    distanceTo target p ∈ l.map (distanceTo target) ↔ p.nodeId ∈ idSet l := by
  rw [List.mem_map, mem_idSet]
  refine exists_congr fun q => and_congr_right fun _ => ?_
  exact target.xorDistance_injective.eq_iff

namespace LookupInv

variable {s : TrackedLookup}

theorem nodup_ids (h : LookupInv s) : (s.query.closest.map PeerContact.nodeId).Nodup :=
  nodup_distances_iff.mp (List.pairwise_map.mpr (h.sorted.imp ne_of_lt))

theorem closestOffered (h : LookupInv s) : ∀ p ∈ s.query.closest, p ∈ s.offered :=
  fun p hp => mem_offered_of_distinct (h.nearest.subset p hp)

theorem bookkept (h : LookupInv s) : Bookkept s where
  sorted := h.sorted
  distinct := h.nodup_ids
  nearest := h.nearest
  pending := fun p hp hresponded => h.pendingNew p hp ((h.contacted_iff _).mpr hresponded)
  next := fun _ hp hresponded =>
    (LookupQuery.mem_nextPeersToQuery hp).2 ((h.contacted_iff _).mpr hresponded)

end LookupInv

section sorting
variable {target : NodeId} {peers : List PeerContact}
  (hdistinct : (peers.map PeerContact.nodeId).Nodup)

include hdistinct

theorem pairwise_sortAndTruncate : (LookupQuery.sortAndTruncate target peers).Pairwise
    fun a b => distanceTo target a < distanceTo target b :=
  (pairwise_lt_sortByDist (nodup_distances_iff.mpr hdistinct)).sublist (List.take_sublist _ _)

theorem isNearest_sortAndTruncate :
    IsNearest (distanceTo target) kSize peers (LookupQuery.sortAndTruncate target peers) :=
  isNearest_take_sortByDist (nodup_distances_iff.mpr hdistinct) kSize

end sorting

theorem lookupInv_init {s : TrackedLookup} (h : lookupSystem.init s) : LookupInv s := by
  obtain ⟨target, alpha, peers, rfl⟩ := h
  have hdistinct := nodup_ids_unseenPeers ∅ ∅ peers
  exact
    { sorted := pairwise_sortAndTruncate hdistinct
      nearest := isNearest_sortAndTruncate hdistinct
      pendingOffered := fun p hp =>
        (mem_of_mem_unseenPeers (LookupQuery.mem_of_mem_sortAndTruncate hp)).1
      pendingNew := fun p _ => Finset.notMem_empty p.nodeId
      contactedOffered := Finset.empty_subset _
      contacted_iff :=
        fun id => by simp [LookupQuery.init, LookupQuery.withAlpha, LookupQuery.new] }

section answer
variable {s : TrackedLookup} {peer : PeerContact} (newPeers : List PeerContact)

/-- The ids that were asked have all been offered. -/
theorem LookupInv.asked_subset (h : LookupInv s) (hpeer : peer ∈ s.query.nextPeersToQuery) :
    insert peer.nodeId s.query.contacted ⊆ idSet s.offered := by
  have hknown : peer ∈ s.offered := by
    rcases (LookupQuery.mem_nextPeersToQuery hpeer).1 with hmem | hmem
    · exact h.pendingOffered peer hmem
    · exact h.closestOffered peer hmem
  exact Finset.insert_subset (mem_idSet.mpr ⟨peer, hknown, rfl⟩) h.contactedOffered

/-- What an answer adds to the distinct peers. -/
theorem LookupInv.distinctOffers_append (h : LookupInv s)
    (hpeer : peer ∈ s.query.nextPeersToQuery) :
    distinctOffers (s.offered ++ newPeers) =
      distinctOffers s.offered ++ (s.query.addedBy peer newPeers).filter fun p =>
        distanceTo s.query.target p ∉
          (distinctOffers s.offered).map (distanceTo s.query.target) := by
  have hclosest : idSet s.query.closest ⊆ idSet s.offered := idSet_subset h.closestOffered
  have hfilter := filter_unseenPeers (h.asked_subset hpeer) (idSet s.query.closest) newPeers
  rw [Finset.union_eq_left.mpr hclosest] at hfilter
  have hids : ∅ ∪ idSet (unseenPeers ∅ ∅ s.offered) = idSet s.offered := by
    rw [Finset.empty_union]
    exact idSet_distinctOffers s.offered
  unfold distinctOffers
  rw [unseenPeers_append, hids, ← hfilter]
  congr 1
  apply List.filter_congr
  intro p _
  rw [decide_eq_decide, distance_mem_iff]
  exact not_congr (by rw [← idSet_distinctOffers s.offered]; rfl)

theorem LookupInv.nodup_added (h : LookupInv s) (peer : PeerContact) :
    ((s.query.closest ++ s.query.addedBy peer newPeers).map PeerContact.nodeId).Nodup := by
  rw [List.map_append]
  refine h.nodup_ids.append (nodup_ids_unseenPeers _ _ _) ?_
  intro id hold hnew
  obtain ⟨p, hp, rfl⟩ := List.mem_map.mp hnew
  obtain ⟨q, hq, hid⟩ := List.mem_map.mp hold
  exact (mem_of_mem_unseenPeers hp).2.2 (mem_idSet.mpr ⟨q, hq, hid⟩)

/-- **An answer** keeps the books. -/
theorem LookupInv.answer (h : LookupInv s) (hpeer : peer ∈ s.query.nextPeersToQuery) :
    LookupInv ⟨s.query.processResponse peer newPeers, s.offered ++ newPeers,
      peer.nodeId :: s.responded⟩ := by
  have hadded := h.nodup_added newPeers peer
  have hoffers := h.distinctOffers_append newPeers hpeer
  have hwaiting : ∀ p ∈ s.query.waitingAfter peer newPeers, p ∈ s.offered ++ newPeers ∧
      p.nodeId ∉ insert peer.nodeId s.query.contacted := by
    intro p hp
    obtain ⟨hmem, hnew⟩ := LookupQuery.mem_waitingAfter hp h.pendingNew
    refine ⟨List.mem_append.mpr (hmem.imp_left (h.pendingOffered p)), hnew⟩
  have hasked : insert peer.nodeId s.query.contacted ⊆ idSet (s.offered ++ newPeers) := by
    rw [idSet_append]
    exact (h.asked_subset hpeer).trans Finset.subset_union_left
  have hresponded : ∀ id, id ∈ insert peer.nodeId s.query.contacted ↔
      id ∈ peer.nodeId :: s.responded := by
    intro id
    rw [Finset.mem_insert, List.mem_cons, h.contacted_iff]
  rw [LookupQuery.processResponse_eq]
  split
  · next hnone =>
    rw [hnone, List.filter_nil, List.append_nil] at hoffers
    exact
      { sorted := h.sorted
        nearest := by
          show IsNearest _ _ (distinctOffers (s.offered ++ newPeers)) _
          rw [hoffers]
          exact h.nearest
        pendingOffered := fun p hp => (hwaiting p hp).1
        pendingNew := fun p hp => (hwaiting p hp).2
        contactedOffered := hasked
        contacted_iff := hresponded }
  · exact
      { sorted := pairwise_sortAndTruncate hadded
        nearest := by
          have hmore := h.nearest.offer_more (nodup_distances_iff.mpr hadded)
          show IsNearest _ _ (distinctOffers (s.offered ++ newPeers))
            ((sortByDist _ (s.query.closest ++ s.query.addedBy peer newPeers)).take kSize)
          rw [hoffers]
          convert hmore
        pendingOffered := fun p hp =>
          (hwaiting p (LookupQuery.mem_of_mem_sortAndTruncate hp)).1
        pendingNew := fun p hp => (hwaiting p (LookupQuery.mem_of_mem_sortAndTruncate hp)).2
        contactedOffered := hasked
        contacted_iff := hresponded }

end answer

/-- **Lookup bookkeeping.** After any answers, the closest peers are in order,
    each there once, and the nearest of all that have been offered; and what is
    to be asked has not answered yet. -/
theorem lookup_bookkeeping {tr : List (TrackedLookup × LookupResponse)} {s : TrackedLookup}
    (h : lookupSystem.Exec tr s) : Bookkept s := by
  refine (System.Exec.invariant LookupInv (fun s => lookupInv_init) ?_ h).bookkept
  rintro s response s' hs ⟨hpeer, rfl⟩
  exact hs.answer response.newPeers hpeer

/-- A peer answers with itself and another one. -/
theorem bookkept_one_answer :
    Bookkept ⟨(((LookupQuery.new zeroId).withAlpha 3).init [globalPeer lastBitId]).processResponse
        (globalPeer lastBitId) [globalPeer lastBitId, globalPeer peerAId],
      [globalPeer lastBitId] ++ [globalPeer lastBitId, globalPeer peerAId],
      [lastBitId]⟩ := by
  have hstart : lookupSystem.Exec []
      ⟨((LookupQuery.new zeroId).withAlpha 3).init [globalPeer lastBitId],
        [globalPeer lastBitId], []⟩ :=
    .nil ⟨zeroId, 3, [globalPeer lastBitId], rfl⟩
  have hexec :=
    hstart.snoc (l := ⟨globalPeer lastBitId, [globalPeer lastBitId, globalPeer peerAId]⟩)
    ⟨by decide +kernel, rfl⟩
  exact lookup_bookkeeping hexec

end Synvoid.Routing
