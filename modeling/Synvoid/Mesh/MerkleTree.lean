import Synvoid.Framework.HashTree
import Synvoid.Framework.Table
import Synvoid.Mesh.HybridSignature
import Mathlib.Data.String.Basic

/-! # The Merkle tree of the record store

    Model of `dht/merkle.rs`: the tree over the records of a store, its
    incremental maintenance, and proofs that records are in it.

    * The hash function is a parameter (`sha256`).
    * The hash tables of the source are `Table`s; what is read off a tree does
      not depend on the order of their entries.
    * The height is the number of levels, as in every tree the source builds.

    `Reflects` says that a tree is the one of a given set of records, and the
    operations keep it up with the records (`Reflects.insertOrUpdate`,
    `Reflects.removeKey`). So after any number of updates the tree is the one
    that is built from the records at that time (`run_same_as_rebuilt`).
-/

namespace Synvoid.Mesh

open Synvoid.Framework

/-! ## Section 1: Hashing -/

section hashing
variable (sha256 : Bytes → Bytes)

/-- What a leaf is the hash of: key and value with a colon in between. -/
def leafContent (key : String) (value : Bytes) : Bytes := asBytes key ++ 58 :: value

def computeLeafHash (key : String) (value : Bytes) : Bytes := sha256 (leafContent key value)

def emptyHash : Bytes := sha256 (asBytes "empty")

/-- Inner nodes hash their children, without anything that tells them from
    leaves. -/
def nodeHash (left right : Bytes) : Bytes := sha256 (left ++ right)

end hashing

/-! ## Section 2: The tree -/

structure MerkleTree where
  levels : List (List Bytes)
  keyIndex : Table String Nat
  sortedKeys : List String
  values : Table String Bytes
  height : Nat

namespace MerkleTree

def new : MerkleTree :=
  { levels := []
    keyIndex := ∅
    sortedKeys := []
    values := ∅
    height := 0 }

def isEmpty (tree : MerkleTree) : Bool := tree.sortedKeys.isEmpty

def rootHash (tree : MerkleTree) : Option Bytes := rootOf tree.levels

def getLeafHash (tree : MerkleTree) (key : String) : Option Bytes := do
  let idx ← tree.keyIndex.lookup key
  let leaves ← tree.levels.head?
  leaves[idx]?

section operations
variable (sha256 : Bytes → Bytes)

/-- The hashes of the records, in the order of their keys. -/
def leafLevel (records : Table String Bytes) : List Bytes :=
  records.sortedKeys.map fun key => computeLeafHash sha256 key ((records.lookup key).getD [])

def fromRecords (records : Table String Bytes) : MerkleTree :=
  if records.entries.isEmpty then .new
  else
    let sortedKeys := records.sortedKeys
    let levels := Framework.levels (nodeHash sha256) (emptyHash sha256) (leafLevel sha256 records)
    { levels
      keyIndex := .collect sortedKeys.zipIdx
      sortedKeys
      values := records
      height := levels.length }

def rehashPath (tree : MerkleTree) (leafIdx : Nat) : MerkleTree :=
  if tree.height ≤ 1 then tree
  else
    match tree.levels with
    | [] => tree
    | leaves :: above =>
        { tree with
          levels := rehash (nodeHash sha256) (emptyHash sha256) leafIdx leaves above }

/-- A new value for a known key repairs one path; a new key rebuilds the
    tree. -/
def insertOrUpdate (tree : MerkleTree) (key : String) (value : Bytes) : MerkleTree :=
  match tree.keyIndex.lookup key with
  | some idx =>
      let newHash := computeLeafHash sha256 key value
      rehashPath sha256
        { tree with
          levels := tree.levels.modifyHead fun leaves => leaves.set idx newHash
          values := tree.values.insert key value } idx
  | none => fromRecords sha256 (tree.values.insert key value)

def removeKey (tree : MerkleTree) (key : String) : MerkleTree :=
  if (tree.keyIndex.lookup key).isNone then tree
  else fromRecords sha256 (tree.values.erase key)

end operations

end MerkleTree

/-! ## Section 3: Proofs -/

inductive ProofPosition where
  | left | right | root
  deriving DecidableEq

structure MerkleProofNode where
  hash : Bytes
  position : ProofPosition
  siblingHash : Option Bytes
  key : Option String
  deriving DecidableEq

structure MerkleProof where
  rootHash : Bytes
  queriedKeys : List String
  proofNodes : List MerkleProofNode
  treeHeight : Nat
  deriving DecidableEq

/-- The leaf that a proof is for. -/
def leafNode (key : String) (hash : Bytes) : MerkleProofNode :=
  { hash, position := .root, siblingHash := none, key := some key }

/-- A sibling on the way to the root. -/
def siblingNode (sibling : Bool × Bytes) : MerkleProofNode :=
  { hash := sibling.2
    position := if sibling.1 then .right else .left
    siblingHash := none
    key := none }

namespace MerkleTree

/-- The nodes for one key; a key that is not in the tree has none. -/
def proofNodesFor (sha256 : Bytes → Bytes) (tree : MerkleTree) (key : String) :
    List MerkleProofNode :=
  match tree.keyIndex.lookup key with
  | none => []
  | some leafIdx =>
      leafNode key ((tree.levels.headD []).getD leafIdx []) ::
        (siblings (emptyHash sha256) leafIdx tree.levels).map siblingNode

/-- The nodes of all keys, one after the other. -/
def generateProof (sha256 : Bytes → Bytes) (tree : MerkleTree) (keys : List String) :
    Option MerkleProof :=
  if tree.isEmpty then none
  else
    tree.rootHash.map fun rootHash =>
      { rootHash
        queriedKeys := keys
        proofNodes := keys.flatMap (proofNodesFor sha256 tree)
        treeHeight := tree.height }

end MerkleTree

/-- The loop of `verify`, with its variables `found_leaf` and `current_hash`;
    `none` is the early return. -/
def verifyNodes (sha256 : Bytes → Bytes) (recordKey : String) (leafHash : Bytes) :
    List MerkleProofNode → Bool → Bytes → Option Bytes
  | [], _, currentHash => some currentHash
  | node :: rest, foundLeaf, currentHash =>
      if node.key = some recordKey then
        if node.hash ≠ leafHash then none
        else verifyNodes sha256 recordKey leafHash rest true currentHash
      else if !foundLeaf then verifyNodes sha256 recordKey leafHash rest foundLeaf currentHash
      else
        -- also the nodes of keys that come later in the proof
        match node.position with
        | .left =>
            verifyNodes sha256 recordKey leafHash rest foundLeaf
              (nodeHash sha256 node.hash currentHash)
        | .right =>
            verifyNodes sha256 recordKey leafHash rest foundLeaf
              (nodeHash sha256 currentHash node.hash)
        | .root => verifyNodes sha256 recordKey leafHash rest foundLeaf currentHash

def MerkleProof.verify (sha256 : Bytes → Bytes) (proof : MerkleProof) (recordKey : String)
    (recordValue : Bytes) : Bool :=
  if proof.queriedKeys.isEmpty then false
  else
    let leafHash := computeLeafHash sha256 recordKey recordValue
    match verifyNodes sha256 recordKey leafHash proof.proofNodes false leafHash with
    | none => false
    -- whether the leaf was found is not asked
    | some currentHash => currentHash == proof.rootHash

/-! ## Section 4: The tree of a set of records -/

namespace MerkleTree

section reflection
variable {sha256 : Bytes → Bytes}

/-- The levels of the tree of the records; none without records. -/
def levelsOf (sha256 : Bytes → Bytes) (records : Table String Bytes) : List (List Bytes) :=
  if records.sortedKeys.isEmpty then []
  else Framework.levels (nodeHash sha256) (emptyHash sha256) (leafLevel sha256 records)

/-- The tree is the one of the records. -/
structure Reflects (sha256 : Bytes → Bytes) (tree : MerkleTree) (records : Table String Bytes) :
    Prop where
  sortedKeys_eq : tree.sortedKeys = records.sortedKeys
  levels_eq : tree.levels = levelsOf sha256 records
  lookup_keyIndex : ∀ key i, tree.keyIndex.lookup key = some i ↔ records.sortedKeys[i]? = some key
  lookup_values : ∀ key, tree.values.lookup key = records.lookup key
  height_eq : tree.height = tree.levels.length

theorem sortedKeys_eq_nil_iff {records : Table String Bytes} :
    records.sortedKeys = [] ↔ records.entries = [] := by
  unfold Table.sortedKeys
  rw [← List.length_eq_zero_iff, List.length_insertionSort, List.length_eq_zero_iff]
  simp [AList.keys, List.keys]

theorem leafLevel_congr {records records' : Table String Bytes}
    (h : ∀ key, records.lookup key = records'.lookup key) :
    leafLevel sha256 records = leafLevel sha256 records' := by
  have hkeys : records.sortedKeys = records'.sortedKeys :=
    Table.sortedKeys_congr fun key => by rw [h]
  unfold leafLevel
  simp only [hkeys, h]

/-- The tree depends on what a lookup finds in the records. -/
theorem Reflects.congr {tree : MerkleTree} {records records' : Table String Bytes}
    (h : tree.Reflects sha256 records) (heq : ∀ key, records.lookup key = records'.lookup key) :
    tree.Reflects sha256 records' := by
  have hkeys : records.sortedKeys = records'.sortedKeys :=
    Table.sortedKeys_congr fun key => by rw [heq]
  have hlevels : levelsOf sha256 records = levelsOf sha256 records' := by
    unfold levelsOf
    rw [hkeys, leafLevel_congr heq]
  exact ⟨h.sortedKeys_eq.trans hkeys, h.levels_eq.trans hlevels,
    fun key i => by rw [h.lookup_keyIndex, hkeys], fun key => (h.lookup_values key).trans (heq key),
    h.height_eq⟩

theorem lookup_collect_zipIdx {keys : List String} (hnodup : keys.Nodup) (key : String) (i : Nat) :
    (Table.collect keys.zipIdx).lookup key = some i ↔ keys[i]? = some key := by
  rw [Table.lookup_collect (by simpa using hnodup), List.mk_mem_zipIdx_iff_getElem?]

theorem reflects_fromRecords (sha256 : Bytes → Bytes) (records : Table String Bytes) :
    (fromRecords sha256 records).Reflects sha256 records := by
  unfold fromRecords
  by_cases hempty : records.entries = []
  · have hkeys : records.sortedKeys = [] := sortedKeys_eq_nil_iff.mpr hempty
    have hlookup : ∀ key, records.lookup key = none := by
      intro key
      rw [← Option.not_isSome_iff_eq_none]
      intro hsome
      have hmem := Table.mem_sortedKeys.mpr hsome
      rw [hkeys] at hmem
      cases hmem
    rw [hempty]
    refine ⟨hkeys.symm, ?_, ?_, ?_, rfl⟩
    · unfold levelsOf
      rw [hkeys]
      rfl
    · intro key i
      simp [hkeys, MerkleTree.new]
    · intro key
      rw [hlookup]
      rfl
  · have hkeys : records.sortedKeys ≠ [] := fun h => hempty (sortedKeys_eq_nil_iff.mp h)
    rw [if_neg (by simpa using hempty)]
    refine ⟨rfl, ?_, ?_, fun _ => rfl, rfl⟩
    · unfold levelsOf
      rw [if_neg (by simpa using hkeys)]
    · exact lookup_collect_zipIdx records.nodup_sortedKeys

/-- Trees of the same records have the same root. -/
theorem Reflects.rootHash_eq {tree : MerkleTree} {records : Table String Bytes}
    (h : tree.Reflects sha256 records) :
    tree.rootHash = (fromRecords sha256 records).rootHash := by
  unfold MerkleTree.rootHash
  rw [h.levels_eq, (reflects_fromRecords sha256 records).levels_eq]

/-- The place of a key among the leaves, with its leaf. -/
theorem getElem?_leafLevel (sha256 : Bytes → Bytes) {records : Table String Bytes} {key : String}
    {i : Nat}
    (hi : records.sortedKeys[i]? = some key) :
    (leafLevel sha256 records)[i]? =
      some (computeLeafHash sha256 key ((records.lookup key).getD [])) := by
  unfold leafLevel
  rw [List.getElem?_map, hi]
  rfl

/-- A new value for a known key changes one leaf. -/
theorem leafLevel_insert (sha256 : Bytes → Bytes) {records : Table String Bytes} {key : String}
    {i : Nat}
    (hi : records.sortedKeys[i]? = some key) (value : Bytes) :
    Table.sortedKeys (records.insert key value) = records.sortedKeys ∧
    leafLevel sha256 (records.insert key value) =
      (leafLevel sha256 records).set i (computeLeafHash sha256 key value) := by
  have hmem : key ∈ records.sortedKeys := List.mem_of_getElem? hi
  have hkeys : Table.sortedKeys (records.insert key value) = records.sortedKeys := by
    apply Table.sortedKeys_congr
    intro key'
    rw [Table.lookup_insert_eq]
    split
    · next h =>
      subst h
      exact (Table.mem_sortedKeys.mp hmem).symm
    · rfl
  refine ⟨hkeys, ?_⟩
  unfold leafLevel
  rw [hkeys]
  apply List.ext_getElem?
  intro j
  rw [List.getElem?_map, List.getElem?_set, List.getElem?_map, List.length_map]
  by_cases hj : i = j
  · subst hj
    have hlt : i < records.sortedKeys.length := (List.getElem?_eq_some_iff.mp hi).1
    rw [if_pos rfl, if_pos hlt, hi]
    simp
  · rw [if_neg hj]
    rcases hother : records.sortedKeys[j]? with _ | key'
    · rfl
    · -- another place has another key
      have hne : key' ≠ key := by
        intro heq
        subst heq
        have hj' : j < records.sortedKeys.length := (List.getElem?_eq_some_iff.mp hother).1
        exact hj ((List.getElem?_inj (List.getElem?_eq_some_iff.mp hi).1
          records.nodup_sortedKeys).mp (hi.trans hother.symm))
      simp [Table.lookup_insert_eq, hne]

theorem rehashPath_eq {tree : MerkleTree} {leaves : List Bytes} {above : List (List Bytes)}
    (hlevels : tree.levels = leaves :: above) (hheight : tree.height = tree.levels.length)
    (i : Nat) :
    tree.rehashPath sha256 i =
      { tree with
        levels := rehash (nodeHash sha256) (emptyHash sha256) i leaves above } := by
  obtain ⟨levels, keyIndex, sortedKeys, values, height⟩ := tree
  obtain rfl : levels = leaves :: above := hlevels
  unfold rehashPath
  by_cases hlow : height ≤ 1
  · -- there is nothing above the leaves
    obtain rfl : above = [] := by
      apply List.length_eq_zero_iff.mp
      simp only [List.length_cons] at hheight
      omega
    rw [if_pos hlow]
    rfl
  · rw [if_neg hlow]

/-- **The tree follows a stored record.** -/
theorem Reflects.insertOrUpdate {tree : MerkleTree} {records : Table String Bytes}
    (h : tree.Reflects sha256 records) (key : String) (value : Bytes) :
    (tree.insertOrUpdate sha256 key value).Reflects sha256 (records.insert key value) := by
  have hvalues : ∀ key', (tree.values.insert key value).lookup key' =
      (records.insert key value).lookup key' := by
    intro key'
    rw [Table.lookup_insert_eq, Table.lookup_insert_eq, h.lookup_values]
  unfold MerkleTree.insertOrUpdate
  split
  · next idx hidx =>
    have hi := (h.lookup_keyIndex key idx).mp hidx
    obtain ⟨hkeys, hleaves⟩ := leafLevel_insert sha256 hi value
    have hne : records.sortedKeys ≠ [] := fun hnil => by
      rw [hnil] at hi
      cases hi
    have hlevels : tree.levels = Framework.levels (nodeHash sha256) (emptyHash sha256)
        (leafLevel sha256 records) := by
      rw [h.levels_eq]
      exact if_neg (by simpa using hne)
    have hnew : levelsOf sha256 (records.insert key value) =
        Framework.levels (nodeHash sha256) (emptyHash sha256)
          ((leafLevel sha256 records).set idx (computeLeafHash sha256 key value)) := by
      unfold levelsOf
      rw [hkeys, if_neg (by simpa using hne), hleaves]
    have hcons :=
      levels_eq_cons_tail (nodeHash sha256) (emptyHash sha256) (leafLevel sha256 records)
    rw [← hlevels] at hcons
    have hset : (tree.levels.modifyHead fun leaves =>
        leaves.set idx (computeLeafHash sha256 key value)) =
        (leafLevel sha256 records).set idx (computeLeafHash sha256 key value) ::
          tree.levels.tail := by
      rw [hcons]
      rfl
    have hlength : tree.levels.length = tree.levels.tail.length + 1 := by
      rw [hcons]
      rfl
    rw [rehashPath_eq hset (by simpa using h.height_eq)]
    refine ⟨h.sortedKeys_eq.trans hkeys.symm, ?_, ?_, hvalues, ?_⟩
    · rw [hnew, hlevels]
      exact rehash_levels _ _ _ _ _
    · intro key' i
      rw [hkeys]
      exact h.lookup_keyIndex key' i
    · simpa using h.height_eq.trans hlength
  · next hnone =>
    exact (reflects_fromRecords sha256 _).congr hvalues

theorem Reflects.removeKey {tree : MerkleTree} {records : Table String Bytes}
    (h : tree.Reflects sha256 records) (key : String) :
    (tree.removeKey sha256 key).Reflects sha256 (records.erase key) := by
  have hvalues : ∀ key', (tree.values.erase key).lookup key' =
      (records.erase key).lookup key' := by
    intro key'
    rw [Table.lookup_erase_eq, Table.lookup_erase_eq, h.lookup_values]
  unfold MerkleTree.removeKey
  split
  · next hnone =>
    -- the key was not there
    apply h.congr
    intro key'
    rw [Table.lookup_erase_eq]
    split
    · next heq =>
      subst heq
      rw [← Option.not_isSome_iff_eq_none]
      intro hsome
      obtain ⟨i, hi⟩ := List.getElem?_of_mem (Table.mem_sortedKeys.mpr hsome)
      rw [(h.lookup_keyIndex _ i).mpr hi] at hnone
      cases hnone
    · rfl
  · exact (reflects_fromRecords sha256 _).congr hvalues

end reflection

end MerkleTree

/-! ## Section 5: Sequences of updates -/

inductive TreeUpdate where
  | insertOrUpdate (key : String) (value : Bytes)
  | removeKey (key : String)

namespace TreeUpdate

def apply (sha256 : Bytes → Bytes) (tree : MerkleTree) : TreeUpdate → MerkleTree
  | .insertOrUpdate key value => tree.insertOrUpdate sha256 key value
  | .removeKey key => tree.removeKey sha256 key

/-- What the update does to the records themselves. -/
def store (records : Table String Bytes) : TreeUpdate → Table String Bytes
  | .insertOrUpdate key value => records.insert key value
  | .removeKey key => records.erase key

end TreeUpdate

namespace MerkleTree

variable {sha256 : Bytes → Bytes}

theorem Reflects.apply {tree : MerkleTree} {records : Table String Bytes}
    (h : tree.Reflects sha256 records) (update : TreeUpdate) :
    (update.apply sha256 tree).Reflects sha256 (update.store records) := by
  cases update with
  | insertOrUpdate key value => exact h.insertOrUpdate key value
  | removeKey key => exact h.removeKey key

theorem Reflects.run {tree : MerkleTree} {records : Table String Bytes}
    (h : tree.Reflects sha256 records) (updates : List TreeUpdate) :
    (updates.foldl (TreeUpdate.apply sha256) tree).Reflects sha256
      (updates.foldl TreeUpdate.store records) := by
  induction updates generalizing tree records with
  | nil => exact h
  | cons update updates ih => exact ih (h.apply update)

/-- The index and the leaves are the ones of the records. -/
theorem Reflects.getLeafHash_eq {tree : MerkleTree} {records : Table String Bytes}
    (h : tree.Reflects sha256 records) (key : String) :
    tree.getLeafHash key = (fromRecords sha256 records).getLeafHash key := by
  have hbuilt := reflects_fromRecords sha256 records
  have hindex : tree.keyIndex.lookup key = (fromRecords sha256 records).keyIndex.lookup key := by
    apply Option.ext
    intro i
    rw [h.lookup_keyIndex, hbuilt.lookup_keyIndex]
  unfold getLeafHash
  rw [hindex, h.levels_eq, hbuilt.levels_eq]

/-- Two trees that cannot be told apart by their hashes. -/
structure SameTree (tree rebuilt : MerkleTree) : Prop where
  rootHash_eq : tree.rootHash = rebuilt.rootHash
  sortedKeys_eq : tree.sortedKeys = rebuilt.sortedKeys
  getLeafHash_eq : ∀ key, tree.getLeafHash key = rebuilt.getLeafHash key
  levels_eq : tree.levels = rebuilt.levels
  height_eq : tree.height = rebuilt.height

theorem Reflects.sameTree {tree : MerkleTree} {records : Table String Bytes}
    (h : tree.Reflects sha256 records) : SameTree tree (fromRecords sha256 records) := by
  have hbuilt := reflects_fromRecords sha256 records
  have hlevels := h.levels_eq.trans hbuilt.levels_eq.symm
  exact
    { rootHash_eq := h.rootHash_eq
      sortedKeys_eq := h.sortedKeys_eq.trans hbuilt.sortedKeys_eq.symm
      getLeafHash_eq := h.getLeafHash_eq
      levels_eq := hlevels
      height_eq := by rw [h.height_eq, hbuilt.height_eq, hlevels] }

/-- **Updates in place are as good as a rebuild**, whatever the hash. -/
theorem run_same_as_rebuilt (sha256 : Bytes → Bytes) (records : Table String Bytes)
    (updates : List TreeUpdate) :
    SameTree (updates.foldl (TreeUpdate.apply sha256) (fromRecords sha256 records))
      (fromRecords sha256 (updates.foldl TreeUpdate.store records)) :=
  ((reflects_fromRecords sha256 records).run updates).sameTree

end MerkleTree

end Synvoid.Mesh
