import Mathlib.Data.List.Perm.Basic
import Synvoid.Framework.NearestSelection
import Synvoid.Routing.TableInvariant

/-! # The contacts closest to a target

    `find_closest` goes through the buckets outward from the one of the target,
    above and below it at every offset. The index below is a saturating
    difference, so that from some offset on it is 0 every time: bucket 0 is
    searched again and again, and its contact is found as often.

    This bucket has at most one contact, and all contacts nearer to the target
    are found before it. The result is then the start of the sorted list of all
    contacts found (`findClosestUncached_eq`), and it has the nearest contacts,
    each once, if and only if the second copy of this contact is not among them
    (`find_closest_exact_iff`).
-/

namespace Synvoid.Routing

open Synvoid.Framework Synvoid.Mesh

/-! ## Section 1: The search -/

/-- The buckets at one offset. At offset 0 there is no check of the index,
    which is that of the target. -/
def bucketsToSearch (targetBucket : Fin 256) (offset : Nat) : List (Fin 256) :=
  if offset = 0 then [targetBucket]
  else
    [targetBucket + offset, targetBucket - offset].filterMap fun idx : Nat =>
      if h : idx < 256 then some ⟨idx, h⟩ else none

/-- The buckets at the offsets below `n`. -/
def searchedBelow (targetBucket : Fin 256) (n : Nat) : List (Fin 256) :=
  (List.range n).flatMap (bucketsToSearch targetBucket)

/-- The offsets go up to the number of buckets. -/
def searchedBuckets (targetBucket : Fin 256) : List (Fin 256) :=
  searchedBelow targetBucket (256 + 1)

def maxDistance : NodeId := ⟨List.replicate 32 0xff, rfl⟩

namespace RoutingTable

/-- The contacts in the order in which they are found. -/
def foundContacts (t : RoutingTable) (target : NodeId) : List PeerContact :=
  (searchedBuckets (target.bucketIndex t.localNodeId)).flatMap fun i => (t.buckets i).peers

/-- The distance to a target. -/
def distanceTo (target : NodeId) (p : PeerContact) : NodeId := target.xorDistance p.nodeId

/-- `find_closest` without a cached result. -/
def findClosestUncached (t : RoutingTable) (target : NodeId) (k : Nat) : List PeerContact :=
  selectNearest (distanceTo target) maxDistance k (t.foundContacts target)

end RoutingTable

/-! ## Section 2: Which buckets are searched -/

/-- An index as far as there is a bucket. -/
theorem count_filterMap_bucket (i : Fin 256) (idx : Nat) :
    ([idx].filterMap fun idx : Nat =>
      if h : idx < 256 then some (⟨idx, h⟩ : Fin 256) else none).count i =
      if idx = i.val then 1 else 0 := by
  have hi := i.isLt
  by_cases hidx : idx < 256
  · by_cases heq : idx = i.val
    · subst heq
      simp
    · have hne : (⟨idx, hidx⟩ : Fin 256) ≠ i := fun h => heq (congrArg Fin.val h)
      simp [hidx, heq, hne]
  · simp [hidx, show idx ≠ i.val by omega]

/-- The bucket at an offset above and the one at the same offset below are one
    bucket only at offset 0, and from the target's index on the lower one is
    bucket 0. -/
theorem count_bucketsToSearch (b i : Fin 256) (offset : Nat) :
    (bucketsToSearch b offset).count i =
      if i = 0 then (if b.val ≤ offset then 1 else 0)
      else if i.val = b.val + offset ∨ b.val = i.val + offset then 1 else 0 := by
  have hzero : i = 0 ↔ i.val = 0 := Fin.ext_iff
  have hb : b = i ↔ b.val = i.val := Fin.ext_iff
  unfold bucketsToSearch
  by_cases hoffset : offset = 0
  · rw [if_pos hoffset, List.count_singleton]
    simp only [beq_iff_eq, hzero, hb]
    split <;> split <;> split <;> omega
  · rw [if_neg hoffset, ← List.singleton_append, List.filterMap_append, List.count_append,
      count_filterMap_bucket, count_filterMap_bucket]
    simp only [hzero]
    split <;> split <;> split <;> split <;> omega

theorem searchedBelow_succ (b : Fin 256) (n : Nat) :
    searchedBelow b (n + 1) = searchedBelow b n ++ bucketsToSearch b n := by
  simp [searchedBelow, List.range_succ]

/-- Each bucket but the first is searched once. -/
theorem count_searchedBelow (b : Fin 256) {i : Fin 256} (hi : i ≠ 0) (n : Nat) :
    (searchedBelow b n).count i = if i.val < b.val + n ∧ b.val < i.val + n then 1 else 0 := by
  induction n with
  | zero =>
    simp [searchedBelow]
    omega
  | succ n ih =>
    rw [searchedBelow_succ, List.count_append, ih, count_bucketsToSearch, if_neg hi]
    split <;> split <;> split <;> omega

theorem count_zero_searchedBelow (b : Fin 256) (n : Nat) :
    (searchedBelow b n).count 0 = n - b.val := by
  induction n with
  | zero => simp [searchedBelow]
  | succ n ih =>
    rw [searchedBelow_succ, List.count_append, ih, count_bucketsToSearch, if_pos rfl]
    split <;> omega

/-- The other buckets, in their order. -/
def upperBuckets : List (Fin 256) := (List.finRange 256).filter (· ≠ 0)

theorem nodup_upperBuckets : upperBuckets.Nodup := (List.nodup_finRange 256).filter _

theorem searchedBuckets_perm (b : Fin 256) :
    (searchedBuckets b).Perm (List.replicate (257 - b.val) 0 ++ upperBuckets) := by
  rw [List.perm_iff_count]
  intro i
  rw [List.count_append, List.count_replicate, searchedBuckets]
  by_cases hi : i = 0
  · subst hi
    have hnot : (0 : Fin 256) ∉ upperBuckets := by simp [upperBuckets]
    rw [count_zero_searchedBelow, List.count_eq_zero_of_not_mem hnot]
    simp
  · have hmem : i ∈ upperBuckets := by simp [upperBuckets, hi]
    have hlt := i.isLt
    have hlt' := b.isLt
    rw [count_searchedBelow b hi, List.count_eq_one_of_mem nodup_upperBuckets hmem]
    simp [Ne.symm hi]
    omega

theorem finRange_perm : (List.finRange 256).Perm (0 :: upperBuckets) := by
  have hnodup : (0 :: upperBuckets).Nodup :=
    List.nodup_cons.mpr ⟨by simp [upperBuckets], nodup_upperBuckets⟩
  rw [List.perm_ext_iff_of_nodup (List.nodup_finRange 256) hnodup]
  intro i
  simp [upperBuckets, eq_or_ne]

/-- The search is split at the offset of the target's index: before, no bucket
    comes twice, and from there on no other bucket than 0 up to the target's. -/
theorem searchedBuckets_split (b : Fin 256) : ∃ late,
    searchedBuckets b = searchedBelow b b ++ late ∧ (searchedBelow b b).Nodup ∧
      ∀ i ∈ late, i = 0 ∨ b < i := by
  have hnone : (0 : Fin 256) ∉ searchedBelow b b := by
    rw [← List.count_eq_zero, count_zero_searchedBelow, Nat.sub_self]
  refine ⟨((List.range (257 - b)).map (b.val + ·)).flatMap (bucketsToSearch b), ?_, ?_, ?_⟩
  · have hrange := List.range_add (n := b.val) (m := 257 - b.val)
    rw [Nat.add_sub_cancel' (by omega : b.val ≤ 257)] at hrange
    unfold searchedBuckets searchedBelow
    rw [hrange, List.flatMap_append]
  · rw [List.nodup_iff_count_le_one]
    intro i
    by_cases hi : i = 0
    · rw [hi, List.count_eq_zero_of_not_mem hnone]
      exact Nat.zero_le 1
    · rw [count_searchedBelow b hi]
      split <;> omega
  · intro i hi
    obtain ⟨offset, hoffset, hmem⟩ := List.mem_flatMap.mp hi
    have hle : b.val ≤ offset := by
      obtain ⟨n, -, rfl⟩ := List.mem_map.mp hoffset
      omega
    by_cases hzero : i = 0
    · exact Or.inl hzero
    · right
      have hcount := List.count_pos_iff.mpr hmem
      rw [count_bucketsToSearch, if_neg hzero] at hcount
      have hival : i.val ≠ 0 := fun h => hzero (Fin.ext h)
      show b.val < i.val
      split at hcount <;> omega

/-! ## Section 3: Which contacts are found -/

namespace RoutingTable

/-- The contacts of the other buckets. -/
def upperContacts (t : RoutingTable) : List PeerContact :=
  upperBuckets.flatMap fun i => (t.buckets i).peers

theorem getAllContacts_perm (t : RoutingTable) :
    t.getAllContacts.Perm ((t.buckets 0).peers ++ t.upperContacts) :=
  finRange_perm.flatMap_right fun i => (t.buckets i).peers

theorem foundContacts_perm (t : RoutingTable) (target : NodeId) :
    (t.foundContacts target).Perm
      ((List.replicate (257 - (target.bucketIndex t.localNodeId).val) 0).flatMap
        (fun i => (t.buckets i).peers) ++ t.upperContacts) := by
  rw [upperContacts, ← List.flatMap_append]
  exact (searchedBuckets_perm _).flatMap_right _

/-- The number of contacts that a search meets, where the contact of bucket 0
    counts as often as its bucket is searched. -/
def contactsMet (t : RoutingTable) (target : NodeId) : Nat :=
  (257 - (target.bucketIndex t.localNodeId).val) * (t.buckets 0).peers.length +
    t.upperContacts.length

theorem length_foundContacts (t : RoutingTable) (target : NodeId) :
    (t.foundContacts target).length = t.contactsMet target := by
  rw [(t.foundContacts_perm target).length_eq, List.length_append, List.flatMap_replicate]
  simp [contactsMet]

theorem mem_getAllContacts_of_found {t : RoutingTable} {target : NodeId} {p : PeerContact}
    (hp : p ∈ t.foundContacts target) : p ∈ t.getAllContacts := by
  obtain ⟨i, -, hi⟩ := List.mem_flatMap.mp hp
  exact mem_getAllContacts.mpr ⟨i, hi⟩

theorem foundContacts_perm_of_empty {t : RoutingTable} (target : NodeId)
    (hempty : (t.buckets 0).peers = []) : (t.foundContacts target).Perm t.upperContacts := by
  have hperm := t.foundContacts_perm target
  rw [List.flatMap_replicate, hempty] at hperm
  simpa using hperm

/-- The copies of the contact of bucket 0, and the other contacts. -/
theorem foundContacts_perm_of_zero {t : RoutingTable} (target : NodeId) {c : PeerContact}
    (hc : (t.buckets 0).peers = [c]) :
    (t.foundContacts target).Perm
      (List.replicate (257 - (target.bucketIndex t.localNodeId).val) c ++ t.upperContacts) := by
  refine (t.foundContacts_perm target).trans (List.Perm.append_right _ ?_)
  rw [List.flatMap_replicate, hc]
  simp

section valid
variable {t : RoutingTable} (hvalid : t.Valid) (target : NodeId)

include hvalid

/-- Contacts of different buckets are at different distances. -/
theorem nodup_distanceTo {l : List (Fin 256)} (hl : l.Nodup) :
    ((l.flatMap fun i => (t.buckets i).peers).map (distanceTo target)).Nodup := by
  have hids := (nodup_flatMap_ids (valid_iff.mp hvalid) hl).map target.xorDistance_injective
  have heq : (l.flatMap fun i => (t.buckets i).ids).map target.xorDistance =
      (l.flatMap fun i => (t.buckets i).peers).map (distanceTo target) := by
    rw [List.map_flatMap, List.map_flatMap]
    refine List.flatMap_congr fun i _ => ?_
    rw [KBucket.ids, List.map_map]
    rfl
  rwa [heq] at hids

theorem distInj_getAllContacts : DistInj (distanceTo target) t.getAllContacts :=
  distInj_of_nodup (nodup_distanceTo hvalid target (List.nodup_finRange 256))

/-- Bucket 0 has one contact or none. -/
theorem peers_zero : (t.buckets 0).peers = [] ∨ ∃ c, (t.buckets 0).peers = [c] := by
  have hbucket := valid_iff.mp hvalid 0
  cases hpeers : (t.buckets 0).peers with
  | nil => exact Or.inl rfl
  | cons c rest =>
    cases rest with
    | nil => exact Or.inr ⟨c, rfl⟩
    | cons c' rest =>
      have hids : (t.buckets 0).ids = c.nodeId :: c'.nodeId :: rest.map PeerContact.nodeId := by
        simp [KBucket.ids, hpeers]
      have hplaced := hbucket.placed
      have hlocal := hbucket.notLocal
      have hdistinct := hbucket.distinct
      rw [hids] at hplaced hlocal hdistinct
      have hsame : c.nodeId = c'.nodeId :=
        NodeId.eq_of_bucketIndex_zero (hplaced _ (by simp)) (hplaced _ (by simp))
          (fun h => hlocal (by simp [h])) (fun h => hlocal (by simp [h]))
      simp [hsame] at hdistinct

/-- The contact of bucket 0 is found after all that are nearer. -/
theorem farMetOnce_of_zero {c : PeerContact} (hc : (t.buckets 0).peers = [c]) :
    FarMetOnce (distanceTo target) (t.foundContacts target) := by
  obtain ⟨late, hsplit, hearly, hlate⟩ :=
    searchedBuckets_split (target.bucketIndex t.localNodeId)
  have hfound : t.foundContacts target =
      ((searchedBelow (target.bucketIndex t.localNodeId)
        (target.bucketIndex t.localNodeId)).flatMap fun i => (t.buckets i).peers) ++
      late.flatMap fun i => (t.buckets i).peers := by
    rw [foundContacts, hsplit, List.flatMap_append]
  have hperm := foundContacts_perm_of_zero target hc
  rw [hfound] at hperm ⊢
  apply farMetOnce_append (c := c)
  · exact nodup_distanceTo hvalid target hearly
  · intro p hp
    obtain ⟨i, hi, hpi⟩ := List.mem_flatMap.mp hp
    rcases hlate i hi with rfl | habove
    · rw [hc, List.mem_singleton] at hpi
      rw [hpi]
    · -- farther, as its bucket is above those of the target and of `c`
      have hpbucket := hvalid.placed i p hpi
      have hcbucket := hvalid.placed 0 c (by simp [hc])
      have htarget : target.bucketIndex t.localNodeId < p.nodeId.bucketIndex t.localNodeId := by
        rw [hpbucket]
        exact habove
      have hzero : c.nodeId.bucketIndex t.localNodeId < p.nodeId.bucketIndex t.localNodeId := by
        rw [hpbucket, hcbucket]
        exact lt_of_le_of_lt (Fin.zero_le _) habove
      exact (NodeId.xorDistance_lt_of_bucketIndex htarget hzero).le
  · intro p hp
    rw [hperm.countP_eq, List.countP_append, List.countP_replicate]
    have hother := countP_dist_le_one (nodup_distanceTo hvalid target nodup_upperBuckets) p
    rw [if_neg (by simpa using Ne.symm hp), Nat.zero_add]
    exact hother

theorem farMetOnce_of_empty (hempty : (t.buckets 0).peers = []) :
    FarMetOnce (distanceTo target) (t.foundContacts target) := by
  apply farMetOnce_of_nodup
  rw [((foundContacts_perm_of_empty target hempty).map (distanceTo target)).nodup_iff]
  exact nodup_distanceTo hvalid target nodup_upperBuckets

theorem farMetOnce_foundContacts : FarMetOnce (distanceTo target) (t.foundContacts target) := by
  rcases peers_zero hvalid with hempty | ⟨c, hc⟩
  · exact farMetOnce_of_empty hvalid target hempty
  · exact farMetOnce_of_zero hvalid target hc

/-- The result is the start of the sorted list of the contacts found. -/
theorem findClosestUncached_eq (k : Nat) :
    t.findClosestUncached target k =
      (sortByDist (distanceTo target) (t.foundContacts target)).take k := by
  apply selectNearest_eq_take
  · exact farMetOnce_foundContacts hvalid target
  · exact (distInj_getAllContacts hvalid target).mono fun p hp => mem_getAllContacts_of_found hp

/-! ## Section 4: The nearest contacts -/

/-- The nearest contacts are found, each once, just when there is no room for
    the contact of bucket 0 and its copy. -/
theorem isNearest_findClosestUncached_iff (k : Nat) :
    IsNearest (distanceTo target) k t.getAllContacts (t.findClosestUncached target k) ↔
      ∀ c ∈ (t.buckets 0).peers, k ≤ rank (distanceTo target) t.getAllContacts c + 1 := by
  have hall := t.getAllContacts_perm
  have hinj := distInj_getAllContacts hvalid target
  have hnodup : (t.getAllContacts.map (distanceTo target)).Nodup :=
    nodup_distanceTo hvalid target (List.nodup_finRange 256)
  rw [findClosestUncached_eq hvalid]
  rcases peers_zero hvalid with hempty | ⟨c, hc⟩
  · rw [hempty, List.nil_append] at hall
    rw [hempty, sortByDist_congr hinj ((foundContacts_perm_of_empty target hempty).trans hall.symm)]
    simpa using isNearest_take_sortByDist hnodup k
  · have hperm := foundContacts_perm_of_zero target hc
    obtain ⟨n, hn⟩ : ∃ n, 257 - (target.bucketIndex t.localNodeId).val = n + 2 :=
      ⟨257 - (target.bucketIndex t.localNodeId).val - 2, by omega⟩
    rw [hn] at hperm
    rw [hc, List.singleton_append] at hall
    have hdistinct : ((c :: t.upperContacts).map (distanceTo target)).Nodup :=
      (hall.map (distanceTo target)).nodup_iff.mp hnodup
    have hcopies : DistInj (distanceTo target) (List.replicate (n + 2) c ++ t.upperContacts) :=
      hinj.mono fun p hp => mem_getAllContacts_of_found (hperm.mem_iff.mpr hp)
    have hrank : rank (distanceTo target) t.getAllContacts c =
        rank (distanceTo target) t.upperContacts c := by
      unfold rank
      rw [hall.countP_eq, List.countP_cons_of_neg (by simp)]
    rw [hc, List.forall_mem_singleton, isNearest_congr hall, sortByDist_congr hcopies hperm,
      isNearest_repeated_iff hdistinct, hrank]

end valid

end RoutingTable

/-! ## Section 5: Runs -/

inductive ContactOp where
  | insert (now : Int) (peer : PeerContact)
  | tryInsert (now : Int) (peer : PeerContact)
  | remove (now : Int) (nodeId : NodeId)

def ContactOp.run (sha256 : Sha256) (t : RoutingTable) : ContactOp → RoutingTable
  | insert now peer => (t.insert sha256 now peer).2
  | tryInsert now peer => (t.tryInsert sha256 now peer).2
  | remove now nodeId => (t.remove now nodeId).2

def contactSystem (sha256 : Sha256) : System RoutingTable ContactOp where
  init := RoutingTable.Initial
  step := fun t op t' => t' = op.run sha256 t

theorem ContactOp.run_changed (sha256 : Sha256) {t : RoutingTable} (hvalid : t.Valid)
    (op : ContactOp) : t.Changed (op.run sha256 t) := by
  cases op with
  | insert now peer => exact t.insert_changed sha256 now peer
  | tryInsert now peer => exact t.tryInsert_changed sha256 now peer hvalid
  | remove now nodeId => exact t.remove_changed now nodeId

/-- **Exact search.** In every table reached, and for every target and `k`, the
    search finds the nearest contacts, each once, if and only if a contact in
    bucket 0 has at least `k - 1` nearer ones. -/
theorem find_closest_exact_iff (sha256 : Sha256) {tr : List (RoutingTable × ContactOp)}
    {t : RoutingTable} (h : (contactSystem sha256).Exec tr t) (target : NodeId) (k : Nat) :
    IsNearest (RoutingTable.distanceTo target) k t.getAllContacts (t.findClosestUncached target k) ↔
      ∀ c ∈ (t.buckets 0).peers,
        k ≤ rank (RoutingTable.distanceTo target) t.getAllContacts c + 1 := by
  have hvalid : t.Valid := by
    refine System.Exec.invariant RoutingTable.Valid ?_ ?_ h
    · intro t ht
      exact ht.valid
    · intro t op t' hvalid hstep
      obtain rfl : t' = op.run sha256 t := hstep
      exact (op.run_changed sha256 hvalid).valid hvalid
  exact RoutingTable.isNearest_findClosestUncached_iff hvalid target k

theorem contact_exec_tableWith (nodeId : NodeId) : (contactSystem peerASha256).Exec
    [(.new zeroId "local" 0, .insert 0 (globalPeer nodeId))] (tableWith nodeId) := by
  have hnew : (contactSystem peerASha256).Exec [] (.new zeroId "local" 0) := .nil initial_zero
  exact hnew.snoc rfl

/-- A contact in bucket 0, and two in the farthest bucket. -/
def threeTable : RoutingTable :=
  (ContactOp.tryInsert 0 (globalPeer (farId 0xC0))).run peerASha256
    ((ContactOp.insert 0 (globalPeer (farId 0x80))).run peerASha256 (tableWith lastBitId))

theorem exec_threeTable : ∃ tr, (contactSystem peerASha256).Exec tr threeTable := by
  have hsecond := (contact_exec_tableWith lastBitId).snoc
    (l := .insert 0 (globalPeer (farId 0x80))) rfl
  have hthird := hsecond.snoc (l := .tryInsert 0 (globalPeer (farId 0xC0))) rfl
  exact ⟨_, hthird⟩

/-- Near the far contacts, the one in bucket 0 is the last of three: it is found once. -/
theorem find_closest_exact_three :
    threeTable.getAllContacts.map PeerContact.nodeId = [lastBitId, farId 0x80, farId 0xC0] ∧
      IsNearest (RoutingTable.distanceTo (farId 0x80)) 3 threeTable.getAllContacts
        (threeTable.findClosestUncached (farId 0x80) 3) := by
  obtain ⟨tr, hexec⟩ := exec_threeTable
  refine ⟨by decide +kernel, (find_closest_exact_iff peerASha256 hexec (farId 0x80) 3).mpr ?_⟩
  decide +kernel

/-- The one contact differs from the local id in the last bit, and two are
    asked for: it is given twice. -/
theorem find_closest_duplicates_contact :
    ¬ ∀ tr t, (contactSystem peerASha256).Exec tr t → ∀ target k,
      IsNearest (RoutingTable.distanceTo target) k t.getAllContacts
        (t.findClosestUncached target k) := by
  intro hall
  have hexec := contact_exec_tableWith lastBitId
  have hvalid := valid_tableWith lastBitId
  have hne : lastBitId ≠ zeroId := by decide
  have hzero : lastBitId.bucketIndex zeroId = 0 := by decide +kernel
  have honly : ∀ p ∈ (tableWith lastBitId).getAllContacts, p = globalPeer lastBitId := by
    intro p hp
    obtain ⟨i, hi⟩ := RoutingTable.mem_getAllContacts.mp hp
    rw [peers_tableWith hne] at hi
    split at hi
    · simpa using hi
    · cases hi
  have hmem : globalPeer lastBitId ∈ ((tableWith lastBitId).buckets 0).peers := by
    rw [peers_tableWith hne, if_pos hzero.symm]
    exact List.mem_singleton_self _
  have hrank : rank (RoutingTable.distanceTo zeroId) (tableWith lastBitId).getAllContacts
      (globalPeer lastBitId) = 0 := by
    apply List.countP_eq_zero.mpr
    intro p hp
    rw [honly p hp]
    simp
  have htwo := (RoutingTable.isNearest_findClosestUncached_iff hvalid zeroId 2).mp
    (hall _ _ hexec zeroId 2) _ hmem
  rw [hrank] at htwo
  omega

end Synvoid.Routing
