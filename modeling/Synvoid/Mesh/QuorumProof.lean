import Synvoid.Framework.Quorum
import Synvoid.Mesh.DhtRecord

/-! # Quorum proofs

    Model of `verify_quorum_proof_with_context` (`dht/signed.rs`). A proof is
    a list of signatures by voters; the loop counts the distinct node ids
    whose entry names the voter's trusted key and verifies under it.

    Two records that are accepted for the same set of voters and the same
    trusted keys were both signed by at least one third of the voters
    (`quorum_proofs_intersect`). Signature verification is an arbitrary
    predicate here, in place of `MeshMessageSigner::verify_auto`.
-/

namespace Synvoid.Mesh

open Synvoid.Framework

/-! ## Section 1: Verification of a proof -/

structure QuorumVerifierContext where
  totalKnownGlobalNodes : Nat
  regionalVoterSet : Option (Finset String)
  requestId : String
  action : String
  authorizedGlobalKeys : String → Option String

/-- `QuorumRequest::required_signatures_for`. -/
def requiredSignaturesFor (nodeCount : Nat) : Nat :=
  if nodeCount = 0 then 1 else nodeCount * 2 / 3 + 1

def minQuorumProofSignatures : Nat := 2

section verification
variable (prim : Primitives) (verifyAuto : (content signature publicKey : Bytes) → Bool)

/-- The loop body: the node id that an entry counts for. -/
def verifiedSigner (ctx : QuorumVerifierContext) (signableContent : Bytes)
    (proof : QuorumSignatureProto) : Option String :=
  if ctx.regionalVoterSet.any (fun regionalSet => proof.nodeId ∉ regionalSet) then none
  else
    match proof.signerPublicKey with
    | none => none
    | some signerPk =>
        match ctx.authorizedGlobalKeys proof.nodeId with
        | none => none
        | some expectedKeyB64 =>
            -- the entry names the key that is trusted for this node
            if signerPk ≠ expectedKeyB64 then none
            else
              match prim.base64Decode signerPk with
              | none => none
              | some pkBytes =>
                  if pkBytes.length ≠ 32 then none
                  else if verifyAuto signableContent proof.signature pkBytes then some proof.nodeId
                  else none

def verifyQuorumProofWithContext (record : DhtRecord) (ctx : QuorumVerifierContext) : Bool :=
  if record.quorumProof.isEmpty then false
  else
    let quorumNodes := (ctx.regionalVoterSet.map Finset.card).getD ctx.totalKnownGlobalNodes
    let required :=
      if quorumNodes = 0 then minQuorumProofSignatures
      else max (requiredSignaturesFor quorumNodes) minQuorumProofSignatures
    let signableContent := getQuorumProofSignableContent prim ctx.requestId record ctx.action
    let verifiedSigners := collect (verifiedSigner prim verifyAuto ctx signableContent)
      record.quorumProof
    if verifiedSigners.card < required then false else true

/-! ## Section 2: Quorum intersection -/

/-- The proof of the record has an entry of `voter`, with its trusted key,
    whose signature over `content` verifies under this key. -/
def SignedByVoter (trustedKey : String → Option String) (content : Bytes) (record : DhtRecord)
    (voter : String) : Prop :=
  ∃ proof ∈ record.quorumProof, ∃ keyB64 pkBytes, proof.nodeId = voter ∧
    proof.signerPublicKey = some keyB64 ∧ trustedKey voter = some keyB64 ∧
    prim.base64Decode keyB64 = some pkBytes ∧ pkBytes.length = 32 ∧
    verifyAuto content proof.signature pkBytes = true

end verification

variable {prim : Primitives} {verifyAuto : (content signature publicKey : Bytes) → Bool}

/-- What an entry that counts goes through. -/
theorem verifiedSigner_eq_some {ctx : QuorumVerifierContext} {voters : Finset String}
    (hvoters : ctx.regionalVoterSet = some voters) {content : Bytes}
    {proof : QuorumSignatureProto} {voter : String} :
    verifiedSigner prim verifyAuto ctx content proof = some voter ↔
    voter ∈ voters ∧ ∃ keyB64 pkBytes, proof.nodeId = voter ∧
      proof.signerPublicKey = some keyB64 ∧ ctx.authorizedGlobalKeys voter = some keyB64 ∧
      prim.base64Decode keyB64 = some pkBytes ∧ pkBytes.length = 32 ∧
      verifyAuto content proof.signature pkBytes = true := by
  unfold verifiedSigner
  rw [hvoters]
  constructor
  · intro h
    by_cases hmem : proof.nodeId ∈ voters
    · simp only [Option.any_some, hmem, not_true_eq_false, decide_false, Bool.false_eq_true,
        if_false] at h
      cases hpk : proof.signerPublicKey with
      | none => simp [hpk] at h
      | some signerPk =>
        cases hkey : ctx.authorizedGlobalKeys proof.nodeId with
        | none => simp [hpk, hkey] at h
        | some expected =>
          cases hdec : prim.base64Decode signerPk with
          | none => simp [hpk, hkey, hdec] at h
          | some pkBytes =>
            simp only [hpk, hkey, hdec] at h
            split_ifs at h with hsame hlen hver
            obtain rfl := Option.some.inj h
            obtain rfl : signerPk = expected := not_not.mp hsame
            exact ⟨hmem, signerPk, pkBytes, rfl, rfl, hkey, hdec, not_not.mp hlen, hver⟩
    · simp [hmem] at h
  · intro ⟨hmem, keyB64, pkBytes, hid, hpk, hkey, hdec, hlen, hver⟩
    subst hid
    simp [hmem, hpk, hkey, hdec, hlen, hver]

/-- The signers of an accepted proof are the voters with an entry that
    counts, each of them once. -/
theorem accepted_proof_signers {ctx : QuorumVerifierContext} {voters : Finset String}
    (hvoters : ctx.regionalVoterSet = some voters) (hn : voters.card ≠ 0) {record : DhtRecord}
    (h : verifyQuorumProofWithContext prim verifyAuto record ctx = true) :
    ∃ signers : Finset String, voters.card * 2 / 3 + 1 ≤ signers.card ∧
      ∀ voter, voter ∈ signers ↔ voter ∈ voters ∧
        SignedByVoter prim verifyAuto ctx.authorizedGlobalKeys
          (getQuorumProofSignableContent prim ctx.requestId record ctx.action) record voter := by
  generalize hcontent : getQuorumProofSignableContent prim ctx.requestId record ctx.action = content
  refine ⟨collect (verifiedSigner prim verifyAuto ctx content) record.quorumProof, ?_, ?_⟩
  · unfold verifyQuorumProofWithContext at h
    simp only [hvoters, Option.map_some, Option.getD_some, hn, if_false, hcontent,
      requiredSignaturesFor] at h
    split_ifs at h with hempty hfew
    -- the threshold is at least two thirds of the voters, plus one
    omega
  · intro voter
    rw [mem_collect]
    constructor
    · intro ⟨proof, hproof, hsome⟩
      obtain ⟨hmem, hsigned⟩ := (verifiedSigner_eq_some hvoters).mp hsome
      exact ⟨hmem, proof, hproof, hsigned⟩
    · intro ⟨hmem, proof, hproof, hsigned⟩
      exact ⟨proof, hproof, (verifiedSigner_eq_some hvoters).mpr ⟨hmem, hsigned⟩⟩

/-- **Quorum proofs intersect.** Two records are accepted for the same set of
    at least two voters with the same trusted keys. Then each of them is
    signed by more than two thirds of the voters, over the serialization of
    its request id, key, value hash, lifetime, sequence number, origin and
    action, and at least one third of the voters signed both. -/
theorem quorum_proofs_intersect (prim : Primitives)
    (verifyAuto : (content signature publicKey : Bytes) → Bool) {voters : Finset String}
    (hn : 2 ≤ voters.card) (trustedKey : String → Option String)
    {ctx₁ ctx₂ : QuorumVerifierContext} (hvoters₁ : ctx₁.regionalVoterSet = some voters)
    (hvoters₂ : ctx₂.regionalVoterSet = some voters)
    (hkeys₁ : ctx₁.authorizedGlobalKeys = trustedKey)
    (hkeys₂ : ctx₂.authorizedGlobalKeys = trustedKey) {record₁ record₂ : DhtRecord}
    (h₁ : verifyQuorumProofWithContext prim verifyAuto record₁ ctx₁ = true)
    (h₂ : verifyQuorumProofWithContext prim verifyAuto record₂ ctx₂ = true) :
    ∃ signers₁ signers₂ : Finset String,
      (∀ voter, voter ∈ signers₁ ↔ voter ∈ voters ∧ SignedByVoter prim verifyAuto trustedKey
        ((prim.serializeQuorumProof ⟨ctx₁.requestId, record₁.key, prim.sha256 record₁.value,
          record₁.ttlSeconds, record₁.sequenceNumber, record₁.sourceNodeId, ctx₁.action,
          "synvoid:dht-quorum:v1"⟩).getD []) record₁ voter) ∧
      (∀ voter, voter ∈ signers₂ ↔ voter ∈ voters ∧ SignedByVoter prim verifyAuto trustedKey
        ((prim.serializeQuorumProof ⟨ctx₂.requestId, record₂.key, prim.sha256 record₂.value,
          record₂.ttlSeconds, record₂.sequenceNumber, record₂.sourceNodeId, ctx₂.action,
          "synvoid:dht-quorum:v1"⟩).getD []) record₂ voter) ∧
      voters.card * 2 / 3 + 1 ≤ signers₁.card ∧ voters.card * 2 / 3 + 1 ≤ signers₂.card ∧
      voters.card ≤ 3 * (signers₁ ∩ signers₂).card := by
  subst hkeys₁
  obtain ⟨signers₁, hcard₁, hmem₁⟩ := accepted_proof_signers hvoters₁ (by omega) h₁
  obtain ⟨signers₂, hcard₂, hmem₂⟩ := accepted_proof_signers hvoters₂ (by omega) h₂
  rw [hkeys₂] at hmem₂
  -- both sets of signers are subsets of the same voters
  refine ⟨signers₁, signers₂, hmem₁, hmem₂, hcard₁, hcard₂, ?_⟩
  apply card_le_three_mul_card_inter
  · intro voter hvoter
    exact ((hmem₁ voter).mp hvoter).1
  · intro voter hvoter
    exact ((hmem₂ voter).mp hvoter).1
  · exact hcard₁
  · exact hcard₂

/-- A record with an empty value and a proof by the voters `a` and `b`. -/
def twoVoterRecord (key : String) : DhtRecord :=
  { key
    value := []
    timestamp := 0
    sequenceNumber := 1
    ttlSeconds := 60
    sourceNodeId := "a"
    signature := []
    signerPublicKey := none
    contentHash := []
    quorumProof := [⟨"a", [1], 0, some zeroKeyBase64⟩, ⟨"b", [2], 0, some zeroKeyBase64⟩]
    requestId := none }

def twoVoterContext : QuorumVerifierContext :=
  { totalKnownGlobalNodes := 2
    regionalVoterSet := some {"a", "b"}
    requestId := "r"
    action := "store"
    authorizedGlobalKeys := fun _ => some zeroKeyBase64 }

theorem verifiedSigner_twoVoterContext {content : Bytes} {proof : QuorumSignatureProto}
    (hid : proof.nodeId ∈ ({"a", "b"} : Finset String))
    (hkey : proof.signerPublicKey = some zeroKeyBase64) :
    verifiedSigner acceptAllPrimitives (fun _ _ _ => true) twoVoterContext content
      proof = some proof.nodeId :=
  (verifiedSigner_eq_some rfl).mpr
    ⟨hid, zeroKeyBase64, List.replicate 32 0, rfl, hkey, rfl, decode_zeroKeyBase64, by simp, rfl⟩

theorem collect_twoVoterRecord (content : Bytes) (key : String) :
    collect (verifiedSigner acceptAllPrimitives (fun _ _ _ => true) twoVoterContext content)
      (twoVoterRecord key).quorumProof = {"b", "a"} := by
  show collect _ [_, _] = _
  simp only [collect, List.foldl_cons, List.foldl_nil]
  rw [verifiedSigner_twoVoterContext (by decide) rfl,
    verifiedSigner_twoVoterContext (by decide) rfl]
  rfl

theorem twoVoterRecord_accepted (key : String) :
    verifyQuorumProofWithContext acceptAllPrimitives (fun _ _ _ => true) (twoVoterRecord key)
      twoVoterContext = true := by
  unfold verifyQuorumProofWithContext
  simp only [collect_twoVoterRecord]
  rfl

/-- Two voters that both sign the records `k` and `l`. -/
theorem quorum_proofs_intersect_two_voters :
    ∃ signers₁ signers₂ : Finset String, 1 ≤ (signers₁ ∩ signers₂).card ∧
      2 ≤ signers₁.card ∧ 2 ≤ signers₂.card := by
  have hvoters : twoVoterContext.regionalVoterSet = some {"a", "b"} := rfl
  have hkeys : twoVoterContext.authorizedGlobalKeys = fun _ => some zeroKeyBase64 := rfl
  have hcard : ({"a", "b"} : Finset String).card = 2 := by decide
  obtain ⟨signers₁, signers₂, -, -, hcard₁, hcard₂, hinter⟩ :=
    quorum_proofs_intersect acceptAllPrimitives (fun _ _ _ => true) (by omega)
      (fun _ => some zeroKeyBase64) hvoters hvoters hkeys hkeys
      (twoVoterRecord_accepted "k") (twoVoterRecord_accepted "l")
  rw [hcard] at hcard₁ hcard₂ hinter
  exact ⟨signers₁, signers₂, by omega, hcard₁, hcard₂⟩

end Synvoid.Mesh
