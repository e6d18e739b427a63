import Synvoid.Mesh.MerkleTree

/-! # What Merkle proofs prove

    A proof for several keys is the concatenation of the paths of these keys,
    and the verifier climbs along everything that follows the leaf it looks
    for. So it arrives at the root only for the last key of a proof
    (`proof_complete_iff`), unless the tree has a single leaf.

    In the other direction, a verifier that does not find its leaf compares
    the leaf with the root itself. A proof then verifies for a record that is
    not in the tree if its leaf has the content of the root, which is the
    case for a record whose colon is at another place, and for one that is
    the concatenation of two inner hashes (`proof_sound_iff`).
-/

namespace Synvoid.Mesh

open Synvoid.Framework

namespace MerkleTree

/-- The siblings of a key on the way to the root. -/
def pathOf (sha256 : Bytes → Bytes) (tree : MerkleTree) (key : String) : List (Bool × Bytes) :=
  match tree.keyIndex.lookup key with
  | none => []
  | some leafIdx => siblings (emptyHash sha256) leafIdx tree.levels

/-- Climbing along the paths of several keys, one after the other. -/
def climbKeys (sha256 : Bytes → Bytes) (tree : MerkleTree) (keys : List String) (hash : Bytes) :
    Bytes :=
  keys.foldl (fun hash key => climb (nodeHash sha256) hash (tree.pathOf sha256 key)) hash

end MerkleTree

/-! ## Section 1: What the verifier computes -/

section verifier
variable {sha256 : Bytes → Bytes} {tree : MerkleTree} {records : Table String Bytes}

theorem lookup_of_keyIndex (h : tree.Reflects sha256 records) {key : String} {i : Nat}
    (hi : tree.keyIndex.lookup key = some i) : ∃ value, records.lookup key = some value :=
  Option.isSome_iff_exists.mp
    (Table.mem_sortedKeys.mp (List.mem_of_getElem? ((h.lookup_keyIndex key i).mp hi)))

theorem keyIndex_of_lookup (h : tree.Reflects sha256 records) {key : String} {value : Bytes}
    (hvalue : records.lookup key = some value) : ∃ i, tree.keyIndex.lookup key = some i := by
  obtain ⟨i, hi⟩ := List.getElem?_of_mem (Table.mem_sortedKeys.mpr (Option.isSome_of_mem hvalue))
  exact ⟨i, (h.lookup_keyIndex key i).mpr hi⟩

/-- With a record the tree has leaves. -/
theorem levels_of_lookup (h : tree.Reflects sha256 records) {key : String} {value : Bytes}
    (hvalue : records.lookup key = some value) :
    tree.levels = levels (nodeHash sha256) (emptyHash sha256)
      (MerkleTree.leafLevel sha256 records) := by
  have hmem : key ∈ records.sortedKeys :=
    Table.mem_sortedKeys.mpr (Option.isSome_of_mem hvalue)
  rw [h.levels_eq]
  exact if_neg (by simpa using List.ne_nil_of_mem hmem)

/-- The nodes of a key with a record. -/
theorem proofNodesFor_of_lookup (h : tree.Reflects sha256 records) {key : String} {value : Bytes}
    (hvalue : records.lookup key = some value) :
    tree.proofNodesFor sha256 key =
      leafNode key (computeLeafHash sha256 key value) ::
        (tree.pathOf sha256 key).map siblingNode := by
  obtain ⟨i, hi⟩ := keyIndex_of_lookup h hvalue
  have hleaf := MerkleTree.getElem?_leafLevel sha256 ((h.lookup_keyIndex key i).mp hi)
  have hhead := head?_levels (nodeHash sha256) (emptyHash sha256)
    (MerkleTree.leafLevel sha256 records)
  rw [← levels_of_lookup h hvalue] at hhead
  have hhash : (tree.levels.headD []).getD i [] = computeLeafHash sha256 key value := by
    rw [List.headD_eq_head?_getD, hhead, Option.getD_some, List.getD_eq_getElem?_getD, hleaf,
      hvalue]
    rfl
  unfold MerkleTree.proofNodesFor MerkleTree.pathOf
  rw [hi]
  simp only
  rw [hhash]

/-- A key without a record has no nodes, and no path. -/
theorem proofNodesFor_of_none (h : tree.Reflects sha256 records) {key : String}
    (hnone : records.lookup key = none) :
    tree.proofNodesFor sha256 key = [] ∧ tree.pathOf sha256 key = [] := by
  have hindex : tree.keyIndex.lookup key = none := by
    rw [Option.eq_none_iff_forall_ne_some]
    intro i hi
    obtain ⟨value, hvalue⟩ := lookup_of_keyIndex h hi
    rw [hnone] at hvalue
    cases hvalue
  unfold MerkleTree.proofNodesFor MerkleTree.pathOf
  rw [hindex]
  exact ⟨rfl, rfl⟩

/-- Siblings before the leaf are skipped, and the verifier climbs along the
    others. -/
theorem verifyNodes_siblings (key : String) (leafHash : Bytes) (path : List (Bool × Bytes))
    (rest : List MerkleProofNode) (found : Bool) (hash : Bytes) :
    verifyNodes sha256 key leafHash (path.map siblingNode ++ rest) found hash =
      verifyNodes sha256 key leafHash rest found
        (if found then climb (nodeHash sha256) hash path else hash) := by
  induction path generalizing hash with
  | nil => cases found <;> rfl
  | cons sibling path ih =>
    obtain ⟨onRight, siblingHash⟩ := sibling
    rw [List.map_cons, List.cons_append]
    cases found with
    | false =>
      simp only [verifyNodes, siblingNode]
      simpa using ih hash
    | true =>
      cases onRight with
      | false =>
        simp only [verifyNodes, siblingNode]
        simpa [climb, climbStep] using ih (nodeHash sha256 siblingHash hash)
      | true =>
        simp only [verifyNodes, siblingNode]
        simpa [climb, climbStep] using ih (nodeHash sha256 hash siblingHash)

/-- Without the verifier's key, nothing happens. -/
theorem verifyNodes_of_absent (h : tree.Reflects sha256 records) {key : String} (leafHash : Bytes)
    {keys : List String} (hkeys : key ∈ keys → records.lookup key = none)
    (rest : List MerkleProofNode) (hash : Bytes) :
    verifyNodes sha256 key leafHash (keys.flatMap (tree.proofNodesFor sha256) ++ rest) false hash =
      verifyNodes sha256 key leafHash rest false hash := by
  induction keys with
  | nil => rfl
  | cons k keys ih =>
    have htail := ih fun hmem => hkeys (List.mem_cons_of_mem k hmem)
    rw [List.flatMap_cons, List.append_assoc]
    rcases hvalue : records.lookup k with _ | value
    · rw [(proofNodesFor_of_none h hvalue).1]
      exact htail
    · have hne : k ≠ key := by
        intro heq
        subst heq
        rw [hkeys (by simp)] at hvalue
        cases hvalue
      rw [proofNodesFor_of_lookup h hvalue, List.cons_append]
      simp only [verifyNodes, leafNode, Option.some.injEq, hne, if_false, Bool.not_false, if_true]
      rw [verifyNodes_siblings]
      exact htail

/-- Once the leaf is found, the verifier climbs along all paths that
    follow. -/
theorem verifyNodes_of_found (h : tree.Reflects sha256 records) {key : String} {value : Bytes}
    (hvalue : records.lookup key = some value) (keys : List String) (hash : Bytes) :
    verifyNodes sha256 key (computeLeafHash sha256 key value)
        (keys.flatMap (tree.proofNodesFor sha256)) true hash =
      some (tree.climbKeys sha256 keys hash) := by
  induction keys generalizing hash with
  | nil => rfl
  | cons k keys ih =>
    rw [List.flatMap_cons]
    rcases hother : records.lookup k with _ | other
    · obtain ⟨hnodes, hpath⟩ := proofNodesFor_of_none h hother
      rw [hnodes, List.nil_append, ih]
      simp [MerkleTree.climbKeys, hpath, climb]
    · rw [proofNodesFor_of_lookup h hother, List.cons_append]
      have hclimb : tree.climbKeys sha256 (k :: keys) hash =
          tree.climbKeys sha256 keys (climb (nodeHash sha256) hash (tree.pathOf sha256 k)) := rfl
      rw [hclimb, ← ih]
      by_cases hk : k = key
      · subst hk
        obtain rfl : other = value := Option.some.inj (hother.symm.trans hvalue)
        simp only [verifyNodes, leafNode, if_true, ne_eq, not_true_eq_false, if_false]
        rw [verifyNodes_siblings]
        rfl
      · simp only [verifyNodes, leafNode, Option.some.injEq, hk, if_false, Bool.not_true,
          Bool.false_eq_true]
        rw [verifyNodes_siblings]
        rfl

/-- The path of a key leads to the root. -/
theorem climb_pathOf (h : tree.Reflects sha256 records) {key : String} {value : Bytes}
    (hvalue : records.lookup key = some value) :
    tree.rootHash =
      some (climb (nodeHash sha256) (computeLeafHash sha256 key value)
        (tree.pathOf sha256 key)) := by
  obtain ⟨i, hi⟩ := keyIndex_of_lookup h hvalue
  have hleaf := MerkleTree.getElem?_leafLevel sha256 ((h.lookup_keyIndex key i).mp hi)
  rw [hvalue] at hleaf
  have hroot := climb_siblings (nodeHash sha256) (emptyHash sha256) hleaf
  unfold MerkleTree.rootHash MerkleTree.pathOf
  rw [hi, levels_of_lookup h hvalue]
  exact hroot

theorem generateProof_of_lookup (h : tree.Reflects sha256 records) {key : String} {value : Bytes}
    (hvalue : records.lookup key = some value) (keys : List String) :
    ∃ root, tree.rootHash = some root ∧
      tree.generateProof sha256 keys =
        some ⟨root, keys, keys.flatMap (tree.proofNodesFor sha256), tree.height⟩ := by
  have hroot := climb_pathOf h hvalue
  have hmem : key ∈ records.sortedKeys :=
    Table.mem_sortedKeys.mpr (Option.isSome_of_mem hvalue)
  have hempty : tree.isEmpty = false := by
    unfold MerkleTree.isEmpty
    rw [h.sortedKeys_eq]
    simpa using List.ne_nil_of_mem hmem
  refine ⟨_, hroot, ?_⟩
  unfold MerkleTree.generateProof
  rw [hempty, hroot]
  rfl

theorem generateProof_of_rootHash (h : tree.Reflects sha256 records) {root : Bytes}
    (hroot : tree.rootHash = some root) (keys : List String) :
    ∃ proof, tree.generateProof sha256 keys = some proof := by
  have hempty : tree.isEmpty = false := by
    unfold MerkleTree.isEmpty
    by_contra hnil
    have hkeys : records.sortedKeys = [] := by
      rw [h.sortedKeys_eq] at hnil
      simpa using hnil
    unfold MerkleTree.rootHash at hroot
    rw [h.levels_eq, MerkleTree.levelsOf, hkeys] at hroot
    cases hroot
  unfold MerkleTree.generateProof
  rw [hempty, hroot]
  exact ⟨_, rfl⟩

/-- **What the verifier decides for a key of the proof**: the value has the
    leaf of the record, and the paths behind the key lead from the root to the
    root. -/
theorem verify_of_mem (h : tree.Reflects sha256 records) {key : String} {value : Bytes}
    (hvalue : records.lookup key = some value) {pre post : List String} (hpre : key ∉ pre)
    {proof : MerkleProof} (hproof : tree.generateProof sha256 (pre ++ key :: post) = some proof)
    (v : Bytes) :
    proof.verify sha256 key v = true ↔
      computeLeafHash sha256 key value = computeLeafHash sha256 key v ∧
        ∃ root, tree.rootHash = some root ∧ tree.climbKeys sha256 post root = root := by
  obtain ⟨root, hroot, hgen⟩ := generateProof_of_lookup h hvalue (pre ++ key :: post)
  obtain rfl := Option.some.inj (hgen.symm.trans hproof)
  have hnodes : (pre ++ key :: post).flatMap (tree.proofNodesFor sha256) =
      pre.flatMap (tree.proofNodesFor sha256) ++
        (leafNode key (computeLeafHash sha256 key value) ::
          ((tree.pathOf sha256 key).map siblingNode ++
            post.flatMap (tree.proofNodesFor sha256))) := by
    rw [List.flatMap_append, List.flatMap_cons, proofNodesFor_of_lookup h hvalue,
      List.cons_append]
  unfold MerkleProof.verify
  rw [if_neg (by simp)]
  simp only
  rw [hnodes, verifyNodes_of_absent h _ (fun hmem => absurd hmem hpre)]
  by_cases hleaf : computeLeafHash sha256 key value = computeLeafHash sha256 key v
  · rw [← hleaf]
    simp only [verifyNodes, leafNode, if_true, ne_eq, not_true_eq_false, if_false]
    rw [verifyNodes_siblings, verifyNodes_of_found h hvalue]
    have hclimb := climb_pathOf h hvalue
    obtain rfl := Option.some.inj (hroot.symm.trans hclimb)
    simp [hclimb]
  · simp [verifyNodes, leafNode, hleaf]

/-- **What the verifier decides for any other key**: the record has the hash
    of the root. -/
theorem verify_of_absent (h : tree.Reflects sha256 records) {key : String} {keys : List String}
    (hkeys : key ∈ keys → records.lookup key = none) {proof : MerkleProof}
    (hproof : tree.generateProof sha256 keys = some proof) (v : Bytes) :
    proof.verify sha256 key v = true ↔
      keys ≠ [] ∧ tree.rootHash = some (computeLeafHash sha256 key v) := by
  have hnodes : proof.queriedKeys = keys ∧ tree.rootHash = some proof.rootHash ∧
      proof.proofNodes = keys.flatMap (tree.proofNodesFor sha256) := by
    unfold MerkleTree.generateProof at hproof
    split at hproof
    · cases hproof
    · obtain ⟨root, hroot, rfl⟩ := Option.map_eq_some_iff.mp hproof
      exact ⟨rfl, hroot, rfl⟩
  obtain ⟨hqueried, hroot, hflat⟩ := hnodes
  unfold MerkleProof.verify
  rw [hqueried, hflat, hroot]
  have hskip := verifyNodes_of_absent h (computeLeafHash sha256 key v) hkeys []
    (computeLeafHash sha256 key v)
  rw [List.append_nil] at hskip
  simp only
  rw [hskip]
  cases keys with
  | nil => simp
  | cons k keys =>
    simp only [verifyNodes, List.isEmpty_cons, Bool.false_eq_true, if_false, beq_iff_eq, ne_eq,
      reduceCtorEq, not_false_eq_true, true_and, Option.some.injEq]
    exact eq_comm

end verifier

/-! ## Section 2: Completeness -/

section completeness
variable {sha256 : Bytes → Bytes} {tree : MerkleTree} {records : Table String Bytes}

/-- A single leaf is the root, and its path is empty. -/
theorem pathOf_of_single (h : tree.Reflects sha256 records) (hsingle : records.keys.length = 1)
    (key : String) : tree.pathOf sha256 key = [] := by
  have hlen : (MerkleTree.leafLevel sha256 records).length ≤ 1 := by
    simp [MerkleTree.leafLevel, Table.sortedKeys, hsingle]
  rcases hvalue : records.lookup key with _ | value
  · exact (proofNodesFor_of_none h hvalue).2
  · obtain ⟨i, hi⟩ := keyIndex_of_lookup h hvalue
    unfold MerkleTree.pathOf
    rw [hi, levels_of_lookup h hvalue]
    exact siblings_levels_of_le _ _ hlen i

theorem climbKeys_of_single (h : tree.Reflects sha256 records) (hsingle : records.keys.length = 1)
    (keys : List String) (hash : Bytes) : tree.climbKeys sha256 keys hash = hash := by
  induction keys with
  | nil => rfl
  | cons k keys ih =>
    unfold MerkleTree.climbKeys at ih ⊢
    rw [List.foldl_cons, pathOf_of_single h hsingle]
    exact ih

/-! ### The identity in place of the hash function

    Then a hash is as long as everything below it, and climbing makes it
    longer. -/

theorem length_le_climb_id (hash : Bytes) (path : List (Bool × Bytes)) :
    hash.length ≤ (climb (nodeHash id) hash path).length := by
  induction path generalizing hash with
  | nil => exact le_rfl
  | cons sibling path ih =>
    refine le_trans ?_ (ih (climbStep (nodeHash id) hash sibling))
    unfold climbStep nodeHash
    split <;> simp

theorem length_le_climbKeys_id (tree : MerkleTree) (keys : List String) (hash : Bytes) :
    hash.length ≤ (tree.climbKeys id keys hash).length := by
  induction keys generalizing hash with
  | nil => exact le_rfl
  | cons k keys ih => exact (length_le_climb_id hash _).trans (ih _)

/-- With at least two leaves, the path of a key has a first sibling, and it is
    not empty. -/
theorem length_lt_climb_id {tree : MerkleTree} (h : tree.Reflects id records) {key : String}
    {value : Bytes} (hvalue : records.lookup key = some value) (hmany : records.keys.length ≠ 1)
    (hash : Bytes) : hash.length < (climb (nodeHash id) hash (tree.pathOf id key)).length := by
  have hmem : key ∈ records.sortedKeys :=
    Table.mem_sortedKeys.mpr (Option.isSome_of_mem hvalue)
  have hlen : 1 < (MerkleTree.leafLevel id records).length := by
    have hpos := List.length_pos_of_mem hmem
    simp only [MerkleTree.leafLevel, Table.sortedKeys, List.length_map,
      List.length_insertionSort] at hpos ⊢
    omega
  obtain ⟨i, hi⟩ := keyIndex_of_lookup h hvalue
  -- the sibling is another leaf, or the padding
  have hsibling : ∀ j, 0 < ((MerkleTree.leafLevel id records).getD j (emptyHash id)).length := by
    intro j
    rw [List.getD_eq_getElem?_getD]
    rcases hj : (MerkleTree.leafLevel id records)[j]? with _ | leaf
    · decide
    · obtain ⟨k, -, rfl⟩ := List.mem_map.mp (List.mem_of_getElem? hj)
      simp [computeLeafHash, leafContent]
  unfold MerkleTree.pathOf
  rw [hi, levels_of_lookup h hvalue]
  simp only
  rw [siblings_levels_of_lt _ _ hlen]
  have hpos := hsibling (i ^^^ 1)
  have hfirst : hash.length < (climbStep (nodeHash id) hash
      (i % 2 == 0, (MerkleTree.leafLevel id records).getD (i ^^^ 1) (emptyHash id))).length := by
    unfold climbStep nodeHash
    split <;> simp only [id, List.length_append] <;> omega
  exact hfirst.trans_le (length_le_climb_id _ _)

/-- **Proofs are complete for their last key only.** A proof for keys of the
    records verifies the record of one of them, for every hash function, if
    and only if there is a single record, or the key stands at the end of the
    list and nowhere else in it. -/
theorem proof_complete_iff (records : Table String Bytes) (keys : List String) (key : String)
    (value : Bytes) (hkeys : ∀ k ∈ keys, (records.lookup k).isSome = true) (hkey : key ∈ keys)
    (hvalue : records.lookup key = some value) :
    (∀ sha256 : Bytes → Bytes, ∃ proof,
      (MerkleTree.fromRecords sha256 records).generateProof sha256 keys = some proof ∧
        proof.verify sha256 key value = true) ↔
    records.keys.length = 1 ∨ ∃ pre, keys = pre ++ [key] ∧ key ∉ pre := by
  obtain ⟨pre, post, hsplit, hpre⟩ := List.eq_append_cons_of_mem hkey
  have hverify : ∀ sha256 : Bytes → Bytes, (∃ proof,
      (MerkleTree.fromRecords sha256 records).generateProof sha256 keys = some proof ∧
        proof.verify sha256 key value = true) ↔
      ∃ root, (MerkleTree.fromRecords sha256 records).rootHash = some root ∧
        (MerkleTree.fromRecords sha256 records).climbKeys sha256 post root = root := by
    intro sha256
    have h := MerkleTree.reflects_fromRecords sha256 records
    obtain ⟨root, hroot, hgen⟩ := generateProof_of_lookup h hvalue keys
    subst hsplit
    constructor
    · intro ⟨proof, hproof, hok⟩
      exact ((verify_of_mem h hvalue hpre hproof value).mp hok).2
    · intro hclimb
      exact ⟨_, hgen, (verify_of_mem h hvalue hpre hgen value).mpr ⟨rfl, hclimb⟩⟩
  simp only [hverify]
  constructor
  · intro hall
    by_contra hnot
    obtain ⟨hmany, hlast⟩ := not_or.mp hnot
    obtain ⟨k, post, rfl⟩ : ∃ k post', post = k :: post' := by
      apply List.exists_cons_of_ne_nil
      intro hnil
      subst hnil
      exact hlast ⟨pre, hsplit, hpre⟩
    -- the path of the next key makes the root longer
    obtain ⟨root, -, hclimb⟩ := hall id
    have h := MerkleTree.reflects_fromRecords id records
    obtain ⟨other, hother⟩ := Option.isSome_iff_exists.mp (hkeys k (by simp [hsplit]))
    have hlonger := length_lt_climb_id h hother hmany root
    have hrest := length_le_climbKeys_id (MerkleTree.fromRecords id records) post
      (climb (nodeHash id) root ((MerkleTree.fromRecords id records).pathOf id k))
    have hlength : ((MerkleTree.fromRecords id records).climbKeys id (k :: post) root).length =
        root.length := congrArg List.length hclimb
    exact absurd (hlonger.trans_le hrest) (by
      rw [← hlength]
      exact lt_irrefl _)
  · intro hcond sha256
    have h := MerkleTree.reflects_fromRecords sha256 records
    obtain ⟨root, hroot, -⟩ := generateProof_of_lookup h hvalue keys
    refine ⟨root, hroot, ?_⟩
    rcases hcond with hsingle | ⟨pre', hsplit', hpre'⟩
    · exact climbKeys_of_single h hsingle post root
    · -- the first occurrence is the last element
      obtain rfl : post = [] := by
        rcases List.eq_nil_or_concat post with hnil | ⟨post', last, hpost⟩
        · exact hnil
        · exfalso
          rw [List.concat_eq_append] at hpost
          rw [hsplit', hpost, ← List.cons_append, ← List.append_assoc] at hsplit
          have hinit := (List.append_inj' hsplit rfl).1
          apply hpre'
          rw [hinit]
          simp
      rfl

end completeness

/-- Two records. -/
def twoRecords : Table String Bytes := .collect [("a", [1]), ("b", [2])]

/-- The second of two keys verifies. -/
theorem proof_complete_last_key :
    ∃ proof, (MerkleTree.fromRecords id twoRecords).generateProof id ["a", "b"] = some proof ∧
      proof.verify id "b" [2] = true :=
  (proof_complete_iff twoRecords ["a", "b"] "b" [2] (by decide +kernel) (by decide)
    (by decide +kernel)).mpr (Or.inr ⟨["a"], rfl, by decide⟩) id

/-- The first one does not. -/
theorem first_key_not_verified :
    ∃ proof, (MerkleTree.fromRecords id twoRecords).generateProof id ["a", "b"] = some proof ∧
      twoRecords.lookup "a" = some [1] ∧ proof.verify id "a" [1] = false :=
  ⟨_, rfl, by decide +kernel, by decide +kernel⟩

/-! ## Section 3: Soundness -/

/-- What the root of the tree is the hash of: a leaf content, or the two
    hashes below the root. -/
def rootContent (sha256 : Bytes → Bytes) (records : Table String Bytes) : Option Bytes :=
  match records.sortedKeys with
  | [] => none
  | [key] => some (leafContent key ((records.lookup key).getD []))
  | _ :: _ :: _ => (MerkleTree.levelsOf sha256 records).dropLast.getLast?.map List.flatten

theorem rootHash_eq_rootContent (sha256 : Bytes → Bytes) (records : Table String Bytes) :
    (MerkleTree.fromRecords sha256 records).rootHash = (rootContent sha256 records).map sha256 := by
  have h := MerkleTree.reflects_fromRecords sha256 records
  unfold MerkleTree.rootHash
  rw [h.levels_eq]
  unfold rootContent MerkleTree.levelsOf
  rcases hkeys : records.sortedKeys with _ | ⟨key, _ | ⟨key', rest⟩⟩
  · rfl
  · have hleaves : MerkleTree.leafLevel sha256 records =
        [computeLeafHash sha256 key ((records.lookup key).getD [])] := by
      unfold MerkleTree.leafLevel
      rw [hkeys]
      rfl
    rw [hleaves]
    rfl
  · have hlen : 1 < (MerkleTree.leafLevel sha256 records).length := by
      unfold MerkleTree.leafLevel
      rw [hkeys]
      simp
    obtain ⟨left, right, hpair, hroot⟩ :=
      exists_top_pair (nodeHash sha256) (emptyHash sha256) hlen
    simp only [List.isEmpty_cons, Bool.false_eq_true, if_false]
    rw [hpair, hroot]
    simp [nodeHash]

theorem asBytes_injective : Function.Injective asBytes := by
  intro s t h
  have hs := fromUtf8_asBytes s
  rw [h, fromUtf8_asBytes t] at hs
  exact (Option.some.inj hs).symm

/-- The key's text is the other key's text, a colon and the start of its
    value. -/
def ColonShift (key : String) (value : Bytes) (key' : String) (value' : Bytes) : Prop :=
  ∃ rest, asBytes key' = asBytes key ++ 58 :: rest ∧ value = rest ++ 58 :: value'

theorem leafContent_eq_iff (key key' : String) (value value' : Bytes) :
    leafContent key value = leafContent key' value' ↔
      (key = key' ∧ value = value') ∨ ColonShift key value key' value' ∨
        ColonShift key' value' key value := by
  unfold leafContent ColonShift
  constructor
  · intro h
    rcases List.append_eq_append_iff.mp h with ⟨mid, hkey, hvalue⟩ | ⟨mid, hkey, hvalue⟩
    · cases mid with
      | nil =>
        refine Or.inl ⟨asBytes_injective (by simpa using hkey.symm), ?_⟩
        simpa using hvalue
      | cons byte mid =>
        obtain ⟨rfl, rfl⟩ : 58 = byte ∧ value = mid ++ 58 :: value' := by simpa using hvalue
        exact Or.inr (Or.inl ⟨mid, hkey, rfl⟩)
    · cases mid with
      | nil =>
        refine Or.inl ⟨asBytes_injective (by simpa using hkey), ?_⟩
        simpa using hvalue.symm
      | cons byte mid =>
        obtain ⟨rfl, rfl⟩ : 58 = byte ∧ value' = mid ++ 58 :: value := by simpa using hvalue
        exact Or.inr (Or.inr ⟨mid, hkey, rfl⟩)
  · rintro (⟨rfl, rfl⟩ | ⟨rest, hkey, rfl⟩ | ⟨rest, hkey, rfl⟩)
    · rfl
    · simp [hkey]
    · simp [hkey]

theorem colonShift_ne {key key' : String} {value value' : Bytes}
    (h : ColonShift key value key' value') : key ≠ key' := by
  intro heq
  subst heq
  obtain ⟨rest, hkey, -⟩ := h
  have hlength := congrArg List.length hkey
  simp at hlength

/-- **When a verified record is in the tree.** Under an injective hash
    function, a proof of the tree of some records that verifies for a key and
    a value proves that the key has this value if and only if

    * the proof is for no key, or the records are empty,
    * or the key is one of those the proof is for, and has a record,
    * or the key has the value,
    * or the content of the leaf is not that of the root.

    Two records share a leaf hash if and only if they are equal or one is the
    other with the colon at another place. -/
theorem proof_sound_iff (sha256 : Bytes → Bytes) (hinj : Function.Injective sha256) :
    (∀ records keys key value,
      ((∀ proof, (MerkleTree.fromRecords sha256 records).generateProof sha256 keys = some proof →
          proof.verify sha256 key value = true → records.lookup key = some value) ↔
        keys = [] ∨ (key ∈ keys ∧ (records.lookup key).isSome = true) ∨
          records.lookup key = some value ∨
          rootContent sha256 records ≠ some (leafContent key value))) ∧
    ∀ key value key' value',
      ((computeLeafHash sha256 key value = computeLeafHash sha256 key' value' →
          key = key' ∧ value = value') ↔
        ¬ ColonShift key value key' value' ∧ ¬ ColonShift key' value' key value) := by
  constructor
  · intro records keys key value
    have h := MerkleTree.reflects_fromRecords sha256 records
    by_cases hfound : key ∈ keys ∧ (records.lookup key).isSome = true
    · -- the verifier finds the leaf, and compares its hash
      obtain ⟨hmem, hsome⟩ := hfound
      obtain ⟨value', hvalue'⟩ := Option.isSome_iff_exists.mp hsome
      obtain ⟨pre, post, rfl, hpre⟩ := List.eq_append_cons_of_mem hmem
      refine iff_of_true ?_ (Or.inr (Or.inl ⟨hmem, hsome⟩))
      intro proof hproof hok
      have hleaf := ((verify_of_mem h hvalue' hpre hproof value).mp hok).1
      rcases (leafContent_eq_iff _ _ _ _).mp (hinj hleaf) with ⟨-, rfl⟩ | hshift | hshift
      · exact hvalue'
      · exact absurd rfl (colonShift_ne hshift)
      · exact absurd rfl (colonShift_ne hshift)
    · have habsent : key ∈ keys → records.lookup key = none := by
        intro hmem
        rw [← Option.not_isSome_iff_eq_none]
        exact fun hsome => hfound ⟨hmem, hsome⟩
      have hroot : (MerkleTree.fromRecords sha256 records).rootHash =
          some (computeLeafHash sha256 key value) ↔
          rootContent sha256 records = some (leafContent key value) := by
        rw [rootHash_eq_rootContent, computeLeafHash]
        constructor
        · intro hmap
          obtain ⟨content, hcontent, heq⟩ := Option.map_eq_some_iff.mp hmap
          rw [hcontent, hinj heq]
        · intro hcontent
          rw [hcontent]
          rfl
      constructor
      · intro hsound
        by_contra hnot
        obtain ⟨hkeys, -, hother, hcontent⟩ : keys ≠ [] ∧
            ¬ (key ∈ keys ∧ (records.lookup key).isSome = true) ∧
            records.lookup key ≠ some value ∧
            rootContent sha256 records = some (leafContent key value) := by
          simpa only [not_or, not_not] using hnot
        have hrootHash := hroot.mpr hcontent
        obtain ⟨proof, hproof⟩ := generateProof_of_rootHash h hrootHash keys
        exact hother (hsound proof hproof
          ((verify_of_absent h habsent hproof value).mpr ⟨hkeys, hrootHash⟩))
      · intro hcond proof hproof hok
        obtain ⟨hkeys, hrootHash⟩ := (verify_of_absent h habsent hproof value).mp hok
        rcases hcond with hnil | hmem | hvalue | hcontent
        · exact absurd hnil hkeys
        · exact absurd hmem hfound
        · exact hvalue
        · exact absurd (hroot.mp hrootHash) hcontent
  · intro key value key' value'
    have hleaf : computeLeafHash sha256 key value = computeLeafHash sha256 key' value' ↔
        leafContent key value = leafContent key' value' := hinj.eq_iff
    rw [hleaf, leafContent_eq_iff]
    constructor
    · intro hdistinct
      constructor
      · intro hshift
        exact colonShift_ne hshift (hdistinct (Or.inr (Or.inl hshift))).1
      · intro hshift
        exact colonShift_ne hshift (hdistinct (Or.inr (Or.inr hshift))).1.symm
    · rintro ⟨hno, hno'⟩ (heq | hshift | hshift)
      · exact heq
      · exact absurd hshift hno
      · exact absurd hshift hno'

/-- One record, whose key has a colon. -/
def nodeInfoRecords : Table String Bytes := .collect [("node_info:b", [1])]

/-- A proof for the key does not verify for another value. -/
theorem proof_sound_node_info :
    ¬ ∃ proof, (MerkleTree.fromRecords id nodeInfoRecords).generateProof id ["node_info:b"] =
      some proof ∧ proof.verify id "node_info:b" [2] = true := by
  intro ⟨proof, hproof, hok⟩
  have hsound := ((proof_sound_iff id Function.injective_id).1 nodeInfoRecords ["node_info:b"]
    "node_info:b" [2]).mpr (Or.inr (Or.inl ⟨by decide, by decide +kernel⟩))
  have hvalue := hsound proof hproof hok
  revert hvalue
  decide +kernel

/-- The same proof verifies for the key up to the colon, which has no
    record. -/
theorem proof_verifies_absent_record :
    Function.Injective (id : Bytes → Bytes) ∧
    (∃ proof, (MerkleTree.fromRecords id nodeInfoRecords).generateProof id ["node_info:b"] =
        some proof ∧ proof.verify id "node_info" [98, 58, 1] = true) ∧
    nodeInfoRecords.lookup "node_info" = none ∧
    computeLeafHash id "node_info:b" [1] = computeLeafHash id "node_info" [98, 58, 1] :=
  ⟨Function.injective_id, ⟨_, rfl, by decide +kernel⟩, by decide +kernel, by decide +kernel⟩

end Synvoid.Mesh
