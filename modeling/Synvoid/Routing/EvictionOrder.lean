import Synvoid.Framework.Recency
import Synvoid.Routing.TableInvariant

/-! # The order in which a bucket evicts

    A full bucket gives up its first contact. A bucket has no counters for
    this: the contact that was seen last is the last one of the list, as long
    as every operation that sees a contact moves it to the end.

    `KBucket::insert` and `try_insert` do. `RoutingTable::insert` of a known
    contact and `mark_responded` go through `mark_seen`, which leaves the
    contact where it is: a contact that answers every ping stays the first to
    go (`answering_contact_first`).

    Runs are followed with the number of the call that last inserted,
    refreshed or heard each id (`TrackedTable`). All buckets are in this order
    through a run just when each contact that is refreshed in its place is the
    last one there (`run_ordered_iff`).
-/

namespace Synvoid.Routing

open Synvoid.Framework Synvoid.Mesh

/-! ## Section 1: Calls -/

inductive TableCall where
  | insert (now : Int) (peer : PeerContact)
  | tryInsert (now : Int) (peer : PeerContact)
  | markResponded (now : Int) (nodeId : NodeId)

def TableCall.run (sha256 : Sha256) (t : RoutingTable) : TableCall → RoutingTable
  | insert now peer => (t.insert sha256 now peer).2
  | tryInsert now peer => (t.tryInsert sha256 now peer).2
  | markResponded now nodeId => t.markResponded now nodeId

namespace RoutingTable

/-- The id is in its bucket. -/
def holds (t : RoutingTable) (id : NodeId) : Bool :=
  (t.buckets (id.bucketIndex t.localNodeId)).contains id

/-- What `insert` and `try_insert` check first. -/
def passesChecks (sha256 : Sha256) (t : RoutingTable) (peer : PeerContact) : Bool :=
  peer.nodeId ≠ t.localNodeId && !(peer.requiresPow && !peer.verifyPow sha256)

theorem holds_iff {t : RoutingTable} {id : NodeId} :
    t.holds id = true ↔ id ∈ (t.buckets (id.bucketIndex t.localNodeId)).ids :=
  KBucket.contains_iff

end RoutingTable

/-- The id that a call inserts, refreshes or has an answer from. -/
def TableCall.touched (sha256 : Sha256) (t : RoutingTable) (call : TableCall) : Option NodeId :=
  match call with
  | insert _ peer | tryInsert _ peer =>
      if t.passesChecks sha256 peer && (call.run sha256 t).holds peer.nodeId then some peer.nodeId
      else none
  | markResponded _ nodeId => if t.holds nodeId then some nodeId else none

/-- The id that a call refreshes through `mark_seen`. -/
def TableCall.refreshedInPlace (sha256 : Sha256) (t : RoutingTable) : TableCall → Option NodeId
  | insert _ peer =>
      if t.passesChecks sha256 peer && t.holds peer.nodeId then some peer.nodeId else none
  | tryInsert _ _ => none
  | markResponded _ nodeId => if t.holds nodeId then some nodeId else none

/-- What is refreshed in its place is the last contact of its bucket. -/
def TableCall.KeepsOrder (sha256 : Sha256) (t : RoutingTable) (call : TableCall) : Prop :=
  ∀ id, call.refreshedInPlace sha256 t = some id →
    (t.buckets (id.bucketIndex t.localNodeId)).ids.getLast? = some id

/-- A table, and the number of the last call about each id. -/
structure TrackedTable where
  table : RoutingTable
  lastEvent : NodeId → Nat
  calls : Nat

def TrackedTable.call (sha256 : Sha256) (s : TrackedTable) (call : TableCall) : TrackedTable :=
  { table := call.run sha256 s.table
    lastEvent := (call.touched sha256 s.table).elim s.lastEvent
      fun id => touch s.lastEvent id (s.calls + 1)
    calls := s.calls + 1 }

def trackedSystem (sha256 : Sha256) : System TrackedTable TableCall where
  init := fun s => s.table.Initial ∧ s.lastEvent = (fun _ => 0) ∧ s.calls = 0
  step := fun s call s' => s' = s.call sha256 call

/-- The contact that a bucket offers for eviction was last seen before all
    others of the bucket. -/
def TrackedTable.FirstIsOldest (s : TrackedTable) : Prop :=
  ∀ i p, (s.table.buckets i).getOldest = some p →
    ∀ q ∈ (s.table.buckets i).peers, q.nodeId ≠ p.nodeId →
      s.lastEvent p.nodeId < s.lastEvent q.nodeId

/-! ## Section 2: What a call does to the order -/

/-- All contacts stay where they are. -/
structure Unmoved (t t' : RoutingTable) : Prop where
  sameNode : t'.localNodeId = t.localNodeId
  ids : ∀ i, (t'.buckets i).ids = (t.buckets i).ids

/-- The id is last in its bucket now, others may have left it. -/
structure MovedToEnd (t t' : RoutingTable) (id : NodeId) : Prop where
  sameNode : t'.localNodeId = t.localNodeId
  last : ∃ keep, keep.Sublist (t.buckets (id.bucketIndex t.localNodeId)).ids ∧ id ∉ keep ∧
    (t'.buckets (id.bucketIndex t.localNodeId)).ids = keep ++ [id]
  others : ∀ i, i ≠ id.bucketIndex t.localNodeId → (t'.buckets i).ids = (t.buckets i).ids

inductive CallCase (sha256 : Sha256) (t : RoutingTable) (call : TableCall) : Prop where
  | ignored (h : Unmoved t (call.run sha256 t)) (htouched : call.touched sha256 t = none)
      (hplace : call.refreshedInPlace sha256 t = none)
  | inPlace (id : NodeId) (h : Unmoved t (call.run sha256 t))
      (hmem : id ∈ (t.buckets (id.bucketIndex t.localNodeId)).ids)
      (htouched : call.touched sha256 t = some id)
      (hplace : call.refreshedInPlace sha256 t = some id)
  | moved (id : NodeId) (h : MovedToEnd t (call.run sha256 t) id)
      (htouched : call.touched sha256 t = some id)
      (hplace : call.refreshedInPlace sha256 t = none)

theorem Unmoved.holds_eq {t t' : RoutingTable} (h : Unmoved t t') (id : NodeId) :
    t'.holds id = t.holds id := by
  rw [Bool.eq_iff_iff, RoutingTable.holds_iff, RoutingTable.holds_iff, h.sameNode, h.ids]

theorem MovedToEnd.holds {t t' : RoutingTable} {id : NodeId} (h : MovedToEnd t t' id) :
    t'.holds id = true := by
  obtain ⟨keep, -, -, hids⟩ := h.last
  rw [RoutingTable.holds_iff, h.sameNode, hids]
  simp

theorem Unmoved.of_buckets {t t' : RoutingTable} (hlocal : t'.localNodeId = t.localNodeId)
    (hbuckets : t'.buckets = t.buckets) : Unmoved t t' :=
  ⟨hlocal, fun i => by rw [hbuckets]⟩

theorem Unmoved.of_update {t t' : RoutingTable} {i : Fin 256} {b : KBucket}
    (hlocal : t'.localNodeId = t.localNodeId)
    (hbuckets : t'.buckets = Function.update t.buckets i b)
    (h : b.ids = (t.buckets i).ids) : Unmoved t t' := by
  refine ⟨hlocal, fun j => ?_⟩
  rw [hbuckets]
  by_cases hj : j = i
  · subst hj
    rw [Function.update_self, h]
  · rw [Function.update_of_ne hj]

theorem MovedToEnd.of_update {t t' : RoutingTable} {id : NodeId} {b : KBucket} {keep : List NodeId}
    (hlocal : t'.localNodeId = t.localNodeId)
    (hbuckets : t'.buckets = Function.update t.buckets (id.bucketIndex t.localNodeId) b)
    (hsub : keep.Sublist (t.buckets (id.bucketIndex t.localNodeId)).ids) (hnew : id ∉ keep)
    (h : b.ids = keep ++ [id]) : MovedToEnd t t' id := by
  refine ⟨hlocal, ⟨keep, hsub, hnew, ?_⟩, fun i hi => ?_⟩
  · rw [hbuckets, Function.update_self, h]
  · rw [hbuckets, Function.update_of_ne hi]

/-- `try_insert` of a bucket keeps some contacts in their order, with the new or
    refreshed one behind them, or does nothing. -/
theorem KBucket.tryInsert_order (b : KBucket) (now : Int) (peer : PeerContact)
    (hdistinct : b.ids.Nodup) :
    (b.tryInsert now peer).2.ids = b.ids ∧ peer.nodeId ∉ b.ids ∨
      ∃ keep, keep.Sublist b.ids ∧ peer.nodeId ∉ keep ∧
        (b.tryInsert now peer).2.ids = keep ++ [peer.nodeId] := by
  unfold KBucket.tryInsert
  cases hget : b.get peer.nodeId with
  | some existing =>
    obtain ⟨hid, -⟩ := of_get_eq_some hget
    refine Or.inr ⟨b.ids.erase peer.nodeId, List.erase_sublist, hdistinct.not_mem_erase, ?_⟩
    show (b.moveToEnd now peer.nodeId (existing.markSeen now)).ids = _
    rw [ids_moveToEnd]
    show b.ids.erase peer.nodeId ++ [existing.nodeId] = _
    rw [hid]
  | none =>
    have hnew := get_eq_none.mp hget
    by_cases hroom : b.peers.length < kSize
    · simp only [hroom, if_true]
      exact Or.inr ⟨b.ids, List.Sublist.refl _, hnew, ids_push⟩
    · simp only [hroom, if_false]
      cases hpeers : b.peers with
      | nil => exact Or.inl ⟨rfl, hnew⟩
      | cons oldest rest =>
        have hids : b.ids = oldest.nodeId :: rest.map PeerContact.nodeId := by
          simp [ids, hpeers]
        by_cases hstale : oldest.isStale now tryInsertStaleness = true
        · simp only [hstale, if_true]
          have hsub : (rest.map PeerContact.nodeId).Sublist b.ids := by
            rw [hids]
            exact List.sublist_cons_self _ _
          refine Or.inr ⟨rest.map PeerContact.nodeId, hsub, fun h => hnew (hsub.subset h), ?_⟩
          exact List.map_append
        · simp only [hstale]
          exact Or.inl ⟨rfl, hnew⟩

section calls
variable (sha256 : Sha256) (t : RoutingTable) (now : Int) (peer : PeerContact) (nodeId : NodeId)

theorem unmoved_markSeen (i : Fin 256) :
    Unmoved t (t.setBucket i ((t.buckets i).markSeen now nodeId).2) :=
  .of_update rfl rfl KBucket.ids_markSeen

/-- What fails the checks changes nothing. -/
theorem unmoved_of_not_passesChecks (h : t.passesChecks sha256 peer = false) :
    (t.insert sha256 now peer).2 = t ∧ (t.tryInsert sha256 now peer).2 = t := by
  unfold RoutingTable.passesChecks at h
  unfold RoutingTable.insert RoutingTable.tryInsert
  by_cases hlocal : peer.nodeId = t.localNodeId
  · rw [if_pos hlocal, if_pos hlocal]
    exact ⟨rfl, rfl⟩
  · have hpow : (peer.requiresPow && !peer.verifyPow sha256) = true := by
      simpa [hlocal] using h
    rw [if_neg hlocal, if_neg hlocal, if_pos hpow, if_pos hpow]
    exact ⟨rfl, rfl⟩

variable {sha256} {t} {peer}

theorem of_passesChecks (h : t.passesChecks sha256 peer = true) :
    peer.nodeId ≠ t.localNodeId ∧ ¬ (peer.requiresPow && !peer.verifyPow sha256) = true := by
  unfold RoutingTable.passesChecks at h
  obtain ⟨hlocal, hpow⟩ := (Bool.and_eq_true _ _).mp h
  rw [Bool.not_eq_true'] at hpow
  exact ⟨of_decide_eq_true hlocal, by rw [hpow]; decide⟩

theorem movedToEnd_insertInto
    (hnew : peer.nodeId ∉ (t.buckets (peer.nodeId.bucketIndex t.localNodeId)).ids)
    (hroom : (t.buckets (peer.nodeId.bucketIndex t.localNodeId)).ids.length < kSize) :
    MovedToEnd t (t.insertInto now (peer.nodeId.bucketIndex t.localNodeId) peer).2 peer.nodeId := by
  have hids := KBucket.ids_insert (t.buckets (peer.nodeId.bucketIndex t.localNodeId)) now peer
  rw [if_neg hnew, if_pos hroom] at hids
  unfold RoutingTable.insertInto
  split
  · next hinsert =>
    rw [hinsert] at hids
    exact .of_update rfl rfl (List.Sublist.refl _) hnew hids
  · next hinsert =>
    rw [hinsert] at hids
    exact .of_update rfl rfl (List.Sublist.refl _) hnew hids

/-- A known contact stays in its place; a new one comes last or is refused. -/
theorem insert_order (hvalid : t.Valid) (hpass : t.passesChecks sha256 peer = true) :
    Unmoved t (t.insert sha256 now peer).2 ∨
      t.holds peer.nodeId = false ∧ MovedToEnd t (t.insert sha256 now peer).2 peer.nodeId := by
  obtain ⟨hlocal, hpow⟩ := of_passesChecks hpass
  have hsize := (RoutingTable.valid_iff.mp hvalid (peer.nodeId.bucketIndex t.localNodeId)).size
  unfold RoutingTable.insert
  rw [if_neg hlocal, if_neg hpow]
  simp only
  split
  · exact Or.inl (unmoved_markSeen t now peer.nodeId _)
  next hcontains =>
  have hnew := mt KBucket.contains_iff.mpr hcontains
  have hholds : t.holds peer.nodeId = false := Bool.eq_false_iff.mpr hcontains
  split
  · next hfull =>
    have hfull' : (t.buckets (peer.nodeId.bucketIndex t.localNodeId)).peers.length ≥ kSize := by
      simpa [KBucket.isFull] using hfull
    split
    · next oldest holdest =>
      split
      · -- the first contact makes room
        refine Or.inr ⟨hholds, ?_⟩
        have hmem : oldest.nodeId ∈ (t.buckets (peer.nodeId.bucketIndex t.localNodeId)).ids :=
          List.mem_map_of_mem (List.mem_of_mem_head? holdest)
        have hsub := List.erase_sublist (a := oldest.nodeId)
          (l := (t.buckets (peer.nodeId.bucketIndex t.localNodeId)).ids)
        have hroom := List.length_erase_of_mem hmem
        have hpos := List.length_pos_of_mem hmem
        refine .of_update rfl rfl hsub (fun h => hnew (hsub.subset h)) ?_
        rw [KBucket.ids_insert, KBucket.ids_remove, if_neg fun h => hnew (hsub.subset h), if_pos]
        omega
      · exact Or.inl (.of_buckets rfl rfl)
    · next hnone =>
      -- a full bucket has a first contact
      have hnil : (t.buckets (peer.nodeId.bucketIndex t.localNodeId)).peers = [] :=
        List.head?_eq_none_iff.mp hnone
      rw [hnil] at hfull'
      exact absurd hfull' (by decide)
  · next hfull =>
    refine Or.inr ⟨hholds, movedToEnd_insertInto now hnew ?_⟩
    rw [KBucket.length_ids]
    simpa [KBucket.isFull] using hfull

/-- `try_insert` moves a known contact to the end. -/
theorem tryInsert_order (hvalid : t.Valid) (hpass : t.passesChecks sha256 peer = true) :
    Unmoved t (t.tryInsert sha256 now peer).2 ∧ t.holds peer.nodeId = false ∨
      MovedToEnd t (t.tryInsert sha256 now peer).2 peer.nodeId := by
  obtain ⟨hlocal, hpow⟩ := of_passesChecks hpass
  have hbucket := RoutingTable.valid_iff.mp hvalid (peer.nodeId.bucketIndex t.localNodeId)
  have hcase := KBucket.tryInsert_order (t.buckets (peer.nodeId.bucketIndex t.localNodeId)) now peer
    hbucket.distinct
  unfold RoutingTable.tryInsert
  rw [if_neg hlocal, if_neg hpow]
  simp only
  rcases hcase with ⟨hsame, hnew⟩ | ⟨keep, hsub, hnew, hids⟩
  · refine Or.inl ⟨?_, Bool.eq_false_iff.mpr (mt RoutingTable.holds_iff.mp hnew)⟩
    split
    · exact .of_update rfl rfl hsame
    · exact .of_update rfl rfl hsame
  · refine Or.inr ?_
    split
    · exact .of_update rfl rfl hsub hnew hids
    · exact .of_update rfl rfl hsub hnew hids

/-- **One call**: it does nothing, or refreshes a contact in its place, or puts
    one at the end of its bucket. -/
theorem callCase (hvalid : t.Valid) (call : TableCall) : CallCase sha256 t call := by
  cases call with
  | insert now peer =>
    by_cases hpass : t.passesChecks sha256 peer = true
    · rcases insert_order now hvalid hpass with hsame | ⟨hnew, hmoved⟩
      · by_cases hholds : t.holds peer.nodeId = true
        · refine .inPlace peer.nodeId hsame (RoutingTable.holds_iff.mp hholds) ?_ ?_
          · have hafter := (hsame.holds_eq peer.nodeId).trans hholds
            simp [TableCall.touched, TableCall.run, hpass, hafter]
          · simp [TableCall.refreshedInPlace, hpass, hholds]
        · have hholds' := Bool.eq_false_iff.mpr hholds
          have hafter := (hsame.holds_eq peer.nodeId).trans hholds'
          refine .ignored hsame ?_ ?_
          · simp [TableCall.touched, TableCall.run, hafter]
          · simp [TableCall.refreshedInPlace, hholds']
      · refine .moved peer.nodeId hmoved ?_ ?_
        · simp [TableCall.touched, TableCall.run, hpass, hmoved.holds]
        · simp [TableCall.refreshedInPlace, hnew]
    · have hpass' := Bool.eq_false_iff.mpr hpass
      have hrun := (unmoved_of_not_passesChecks sha256 t now peer hpass').1
      refine .ignored ?_ ?_ ?_
      · exact .of_buckets (congrArg RoutingTable.localNodeId hrun)
          (congrArg RoutingTable.buckets hrun)
      · simp [TableCall.touched, hpass']
      · simp [TableCall.refreshedInPlace, hpass']
  | tryInsert now peer =>
    by_cases hpass : t.passesChecks sha256 peer = true
    · rcases tryInsert_order now hvalid hpass with ⟨hsame, hholds⟩ | hmoved
      · have hafter := (hsame.holds_eq peer.nodeId).trans hholds
        exact .ignored hsame (by simp [TableCall.touched, TableCall.run, hafter]) rfl
      · exact .moved peer.nodeId hmoved
          (by simp [TableCall.touched, TableCall.run, hpass, hmoved.holds]) rfl
    · have hpass' := Bool.eq_false_iff.mpr hpass
      have hrun := (unmoved_of_not_passesChecks sha256 t now peer hpass').2
      refine .ignored ?_ ?_ rfl
      · exact .of_buckets (congrArg RoutingTable.localNodeId hrun)
          (congrArg RoutingTable.buckets hrun)
      · simp [TableCall.touched, hpass']
  | markResponded now nodeId =>
    have hseen := unmoved_markSeen t now nodeId (nodeId.bucketIndex t.localNodeId)
    have hsame : Unmoved t (t.markResponded now nodeId) := ⟨hseen.sameNode, hseen.ids⟩
    by_cases hholds : t.holds nodeId = true
    · exact .inPlace nodeId hsame (RoutingTable.holds_iff.mp hholds)
        (by simp [TableCall.touched, hholds]) (by simp [TableCall.refreshedInPlace, hholds])
    · exact .ignored hsame (by simp [TableCall.touched, hholds])
        (by simp [TableCall.refreshedInPlace, hholds])

theorem TableCall.run_changed (hvalid : t.Valid) (call : TableCall) :
    t.Changed (call.run sha256 t) := by
  cases call with
  | insert now peer => exact t.insert_changed sha256 now peer
  | tryInsert now peer => exact t.tryInsert_changed sha256 now peer hvalid
  | markResponded now nodeId => exact t.markResponded_changed now nodeId

end calls

/-! ## Section 3: Runs -/

namespace TrackedTable

/-- Every bucket is in the order of the last calls. -/
def Ordered (s : TrackedTable) : Prop :=
  ∀ i, OldestFirst s.lastEvent (s.table.buckets i).ids

structure Tracked (s : TrackedTable) : Prop where
  ordered : s.Ordered
  valid : s.table.Valid
  bounded : ∀ id, s.lastEvent id ≤ s.calls

theorem Ordered.firstIsOldest {s : TrackedTable} (h : s.Ordered) : s.FirstIsOldest := by
  intro i p hp q hq hne
  obtain ⟨rest, hpeers⟩ : ∃ rest, (s.table.buckets i).peers = p :: rest := by
    unfold KBucket.getOldest at hp
    exact List.head?_eq_some_iff.mp hp
  have hordered := h i
  unfold KBucket.ids at hordered
  rw [hpeers] at hq hordered
  rw [List.map_cons] at hordered
  rcases List.mem_cons.mp hq with rfl | hq
  · exact absurd rfl hne
  · exact hordered.head q.nodeId (List.mem_map_of_mem hq)

section step
variable {sha256 : Sha256} {s : TrackedTable} {call : TableCall}

theorem bounded_call (hs : s.Tracked) : ∀ id, (s.call sha256 call).lastEvent id ≤ s.calls + 1 := by
  intro id
  show (call.touched sha256 s.table).elim s.lastEvent _ id ≤ s.calls + 1
  cases call.touched sha256 s.table with
  | none => exact Nat.le_succ_of_le (hs.bounded id)
  | some touched =>
    show touch s.lastEvent touched (s.calls + 1) id ≤ s.calls + 1
    by_cases hid : id = touched
    · rw [hid, touch_self]
    · rw [touch_of_ne hid]
      exact Nat.le_succ_of_le (hs.bounded id)

/-- An id is in its own bucket only. -/
theorem not_mem_other {t : RoutingTable} (hvalid : t.Valid) {id : NodeId} {i : Fin 256}
    (hi : i ≠ id.bucketIndex t.localNodeId) : id ∉ (t.buckets i).ids := by
  intro hmem
  exact hi (((RoutingTable.valid_iff.mp hvalid i).placed id hmem).symm)

/-- The order is kept just when what is refreshed in its place is last. -/
theorem ordered_call_iff (hs : s.Tracked) :
    (s.call sha256 call).Ordered ↔ call.KeepsOrder sha256 s.table := by
  have hbound : ∀ i, ∀ id ∈ (s.table.buckets i).ids, s.lastEvent id < s.calls + 1 :=
    fun i id _ => Nat.lt_succ_of_le (hs.bounded id)
  have hcase : CallCase sha256 s.table call := callCase hs.valid call
  unfold Ordered TableCall.KeepsOrder
  cases hcase with
  | ignored h htouched hplace =>
    have hsame : ∀ i, OldestFirst (s.call sha256 call).lastEvent
        ((s.call sha256 call).table.buckets i).ids := by
      intro i
      simp only [TrackedTable.call, htouched, Option.elim_none, h.ids]
      exact hs.ordered i
    simp [hplace, hsame]
  | inPlace id h hmem htouched hplace =>
    simp only [TrackedTable.call, htouched, Option.elim_some, h.ids, hplace, Option.some.injEq,
      forall_eq']
    constructor
    · intro hordered
      exact (oldestFirst_touch_iff (hs.ordered _) (hbound _) hmem).mp (hordered _)
    · intro hlast i
      by_cases hi : i = id.bucketIndex s.table.localNodeId
      · subst hi
        exact (oldestFirst_touch_iff (hs.ordered _) (hbound _) hmem).mpr hlast
      · exact (oldestFirst_touch_of_not_mem (not_mem_other hs.valid hi)).mpr (hs.ordered i)
  | moved id h htouched hplace =>
    have hmoved : ∀ i, OldestFirst (s.call sha256 call).lastEvent
        ((s.call sha256 call).table.buckets i).ids := by
      intro i
      simp only [TrackedTable.call, htouched, Option.elim_some]
      by_cases hi : i = id.bucketIndex s.table.localNodeId
      · obtain ⟨keep, hsub, hnew, hids⟩ := h.last
        subst hi
        rw [hids]
        exact ((hs.ordered _).sublist hsub).append_touched
          (fun a ha => hbound _ a (hsub.subset ha)) hnew
      · rw [h.others i hi]
        exact (oldestFirst_touch_of_not_mem (not_mem_other hs.valid hi)).mpr (hs.ordered i)
    simp [hplace, hmoved]

theorem tracked_call (hs : s.Tracked) (h : (s.call sha256 call).Ordered) :
    (s.call sha256 call).Tracked where
  ordered := h
  valid := (call.run_changed hs.valid).valid hs.valid
  bounded := bounded_call hs

end step

theorem tracked_of_init {sha256 : Sha256} {s : TrackedTable} (h : (trackedSystem sha256).init s) :
    s.Tracked := by
  obtain ⟨hinitial, hlast, hcalls⟩ := h
  refine ⟨fun i => ?_, hinitial.valid, fun id => by rw [hlast, hcalls]⟩
  obtain ⟨localNodeId, localNodeIdString, now, duration, htable⟩ := hinitial
  rw [htable]
  exact List.Pairwise.nil

/-- The buckets are in order through a run just when each contact that is
    refreshed in its place is the last one there. -/
theorem run_ordered_iff (sha256 : Sha256) {tr : List (TrackedTable × TableCall)} {s : TrackedTable}
    (h : (trackedSystem sha256).Exec tr s) :
    (∀ s' ∈ tr.map Prod.fst ++ [s], s'.Ordered) ↔
      ∀ step ∈ tr, step.2.KeepsOrder sha256 step.1.table := by
  refine System.Exec.states_iff_of Ordered Tracked
    (fun s call => call.KeepsOrder sha256 s.table) ?_ ?_ h
  · intro s hs
    exact ⟨(tracked_of_init hs).ordered, tracked_of_init hs⟩
  · intro s call s' hs hstep
    obtain rfl : s' = s.call sha256 call := hstep
    exact ⟨ordered_call_iff hs, tracked_call hs⟩

/-- **Eviction order.** If no call refreshes a contact in its place, other than
    the last one of a bucket, then every bucket always offers the contact that
    was last seen before all others. -/
theorem first_is_oldest (sha256 : Sha256) {tr : List (TrackedTable × TableCall)} {s : TrackedTable}
    (h : (trackedSystem sha256).Exec tr s)
    (hcalls : ∀ step ∈ tr, step.2.KeepsOrder sha256 step.1.table) :
    ∀ s' ∈ tr.map Prod.fst ++ [s], s'.FirstIsOldest := by
  intro s' hs'
  exact ((run_ordered_iff sha256 h).mpr hcalls s' hs').firstIsOldest

/-! ### Two contacts of one bucket -/

def newTable : TrackedTable := ⟨.new zeroId "local" 0, fun _ => 0, 0⟩

theorem exec_newTable : (trackedSystem peerASha256).Exec [] newTable :=
  .nil ⟨initial_zero, rfl, rfl⟩

def twoContacts : TrackedTable :=
  (newTable.call peerASha256 (.insert 0 (globalPeer (farId 0x80)))).call peerASha256
    (.insert 1 (globalPeer (farId 0xC0)))

/-- The second contact answers, and is the last one already. -/
def secondAnswers : TrackedTable := twoContacts.call peerASha256 (.markResponded 2 (farId 0xC0))

/-- Then `try_insert` refreshes the first contact and moves it behind the second. -/
def firstRefreshed : TrackedTable :=
  secondAnswers.call peerASha256 (.tryInsert 3 (globalPeer (farId 0x80)))

theorem exec_twoContacts : (trackedSystem peerASha256).Exec
    [(newTable, .insert 0 (globalPeer (farId 0x80))),
      (newTable.call peerASha256 (.insert 0 (globalPeer (farId 0x80))),
        .insert 1 (globalPeer (farId 0xC0)))] twoContacts :=
  (exec_newTable.snoc rfl).snoc rfl

/-- Two contacts of one bucket: the order of the bucket follows the calls. -/
theorem two_contacts_in_order :
    (secondAnswers.table.buckets 255).ids = [farId 0x80, farId 0xC0] ∧
      secondAnswers.FirstIsOldest ∧
      (firstRefreshed.table.buckets 255).ids = [farId 0xC0, farId 0x80] ∧
      firstRefreshed.FirstIsOldest := by
  have hexec := (exec_twoContacts.snoc (l := .markResponded 2 (farId 0xC0)) rfl).snoc
    (l := .tryInsert 3 (globalPeer (farId 0x80))) rfl
  have hplace : TableCall.refreshedInPlace peerASha256 twoContacts.table
      (.markResponded 2 (farId 0xC0)) = some (farId 0xC0) := by decide +kernel
  have hlast : (twoContacts.table.buckets
      ((farId 0xC0).bucketIndex twoContacts.table.localNodeId)).ids.getLast? =
        some (farId 0xC0) := by decide +kernel
  have hall := first_is_oldest peerASha256 hexec (by
    intro step hstep
    simp only [List.cons_append, List.nil_append, List.mem_cons, List.not_mem_nil,
      or_false] at hstep
    rcases hstep with rfl | rfl | rfl | rfl
    · intro id hid
      cases hid
    · intro id hid
      have hnone : TableCall.refreshedInPlace peerASha256
          (newTable.call peerASha256 (.insert 0 (globalPeer (farId 0x80)))).table
          (.insert 1 (globalPeer (farId 0xC0))) = none := by decide +kernel
      rw [hnone] at hid
      cases hid
    · intro id hid
      obtain rfl := Option.some.inj (hplace.symm.trans hid)
      exact hlast
    · intro id hid
      cases hid)
  exact ⟨by decide +kernel, hall _ (by simp [secondAnswers]), by decide +kernel,
    hall _ (by simp [firstRefreshed, secondAnswers])⟩

/-- A contact that has just answered is the first to be evicted. -/
theorem answering_contact_first :
    ¬ ∀ tr s, (trackedSystem peerASha256).Exec tr s → s.FirstIsOldest := by
  intro hall
  have hexec := ((exec_newTable.snoc (l := .insert 0 (globalPeer (farId 0x80))) rfl).snoc
    (l := .insert 1 (globalPeer (farId 0xC0))) rfl).snoc (l := .markResponded 2 (farId 0x80)) rfl
  have hfirst :=
    hall _ _ hexec 255 { globalPeer (farId 0x80) with lastSeen := 2 } (by decide +kernel)
    { globalPeer (farId 0xC0) with lastSeen := 0 } (by decide +kernel) (by decide)
  exact absurd hfirst (by decide +kernel)

end TrackedTable

end Synvoid.Routing
