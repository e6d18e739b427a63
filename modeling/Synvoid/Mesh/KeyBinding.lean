import Synvoid.Mesh.HybridSignature

/-! # What an accepted signature says about the key

    `verify_auto` is asked about a content, a signature and a public key. A
    signature that parses as an envelope is verified with the key in the
    envelope, and the public key it was asked about is not looked at. So
    anyone can make an envelope that is accepted under any key
    (`envelope_accepted_under_other_key`). The verdict binds the key exactly
    if no envelope that can be accepted carries another one
    (`accepted_signature_binds_key_iff`).

    `verify_auto_async` passes the Ed25519 signature of an envelope to
    `verify`, which takes it for an envelope again if it parses as one. The
    two paths agree, whatever the schemes accept, exactly on signatures
    without such a nested envelope that one of them could accept
    (`sync_async_agree_iff`).

    Both results hold for arbitrary signature schemes, so their conditions
    speak about the bytes alone.
-/

namespace Synvoid.Mesh

open Synvoid.Framework

/-! ## Section 1: Envelopes that can be accepted -/

/-- The keys decode, and all lengths are those the schemes are asked with. -/
def WellSized (decode : Base64Decode) (hybrid : HybridSignature) : Prop :=
  (∃ key, decode hybrid.ed25519PublicKey = some key ∧ key.length = 32) ∧
  hybrid.ed25519Signature.length = 64 ∧ MlDsaSized decode hybrid

variable {decode : Base64Decode} {schemes : SignatureSchemes}

theorem wellSized_of_verifyHybrid {content : Bytes} {hybrid : HybridSignature}
    (h : verifyHybrid decode schemes content hybrid = true) : WellSized decode hybrid := by
  obtain ⟨key, hdec, hed, hml⟩ := verifyHybrid_eq_true.mp h
  obtain ⟨hsig, hkey, -⟩ := verifyEd25519_eq_true.mp hed
  exact ⟨⟨key, hdec, hkey⟩, hsig, hml.sized⟩

/-- Schemes that accept every signature under one Ed25519 key. -/
def acceptKey (key : Bytes) : SignatureSchemes := ⟨fun k _ _ => k == key, fun _ _ _ => true⟩

theorem mlDsaVerdict_of_sized {content : Bytes} {hybrid : HybridSignature}
    (hall : ∀ key message signature, schemes.mlDsa key message signature = true)
    (h : MlDsaSized decode hybrid) : mlDsaVerdict decode schemes content hybrid := by
  intro hhas
  obtain ⟨mlPkB64, key, hpk, hdec, hkey, hsig⟩ := h hhas
  exact ⟨mlPkB64, key, hpk, hdec, hkey, hsig, hall _ _ _⟩

theorem verifyHybrid_acceptKey {content key : Bytes} {hybrid : HybridSignature}
    (hwell : WellSized decode hybrid) (hdec : decode hybrid.ed25519PublicKey = some key) :
    verifyHybrid decode (acceptKey key) content hybrid = true := by
  obtain ⟨⟨key', hdec', hlen⟩, hsig, hml⟩ := hwell
  obtain rfl : key' = key := Option.some.inj (hdec'.symm.trans hdec)
  refine verifyHybrid_eq_true.mpr ⟨key', hdec, ?_, mlDsaVerdict_of_sized (fun _ _ _ => rfl) hml⟩
  exact verifyEd25519_eq_true.mpr ⟨hsig, hlen, by simp [acceptKey]⟩

theorem verifyHybrid_acceptAll {content : Bytes} {hybrid : HybridSignature}
    (hwell : WellSized decode hybrid) :
    verifyHybrid decode acceptAll content hybrid = true := by
  obtain ⟨⟨key, hdec, hlen⟩, hsig, hml⟩ := hwell
  refine verifyHybrid_eq_true.mpr ⟨key, hdec, ?_, mlDsaVerdict_of_sized (fun _ _ _ => rfl) hml⟩
  exact verifyEd25519_eq_true.mpr ⟨hsig, hlen, rfl⟩

/-! ## Section 2: The claimed key -/

/-- The signature bytes contain an Ed25519 signature over `content` that
    verifies under `publicKey`. -/
def ContainsSignature (schemes : SignatureSchemes) (content signature publicKey : Bytes) : Prop :=
  ∃ sig, sig <:+: signature ∧ sig.length = 64 ∧ schemes.ed25519 publicKey content sig = true

/-- The signature is no envelope that can be accepted, or it carries the
    claimed key. -/
def CarriesKey (decode : Base64Decode) (signature publicKey : Bytes) : Prop :=
  ∀ hybrid, HybridSignature.fromBytes signature = .ok hybrid → WellSized decode hybrid →
    decode hybrid.ed25519PublicKey = some publicKey

/-- **An accepted signature binds the key** under all signature schemes, if
    and only if it carries that key, in case it is an envelope that can be
    accepted. -/
theorem accepted_signature_binds_key_iff (decode : Base64Decode)
    (content signature publicKey : Bytes) :
    (∀ schemes, verifyAuto decode schemes content signature publicKey = true →
      ContainsSignature schemes content signature publicKey) ↔
    CarriesKey decode signature publicKey := by
  constructor
  · intro h hybrid hparse hwell
    obtain ⟨⟨key, hdec, -⟩, -, -⟩ := id hwell
    have haccept : verifyAuto decode (acceptKey key) content signature publicKey = true := by
      rw [verifyAuto_eq_verify]
      unfold verify
      rw [hparse]
      exact verifyHybrid_acceptKey hwell hdec
    obtain ⟨sig, -, -, hsig⟩ := h (acceptKey key) haccept
    obtain rfl : publicKey = key := by simpa [acceptKey] using hsig
    exact hdec
  · intro hcarries schemes haccept
    rw [verifyAuto_eq_verify] at haccept
    unfold verify at haccept
    cases hparse : HybridSignature.fromBytes signature with
    | ok hybrid =>
      rw [hparse] at haccept
      have hkey := hcarries hybrid hparse (wellSized_of_verifyHybrid haccept)
      obtain ⟨key, hdec, hed, -⟩ := verifyHybrid_eq_true.mp haccept
      obtain rfl : key = publicKey := Option.some.inj (hdec.symm.trans hkey)
      obtain ⟨hsig, -, hver⟩ := verifyEd25519_eq_true.mp hed
      exact ⟨hybrid.ed25519Signature, (fromBytes_signature hparse).1, hsig, hver⟩
    | error e =>
      rw [hparse] at haccept
      obtain ⟨hsig, -, hver⟩ := verifyEd25519_eq_true.mp haccept
      exact ⟨signature, List.infix_refl signature, hsig, hver⟩

/-! ### An envelope with another key -/

/-- An envelope around 64 bytes and the zero key. -/
def zeroKeyEnvelope : HybridSignature := ⟨List.replicate 64 7, [], zeroKeyBase64, none⟩

theorem fromBytes_zeroKeyEnvelope :
    HybridSignature.fromBytes zeroKeyEnvelope.toBytes = .ok zeroKeyEnvelope := by
  refine fromBytes_toBytes ⟨by decide, by decide, by decide +kernel, ?_⟩
  intro key hkey
  cases hkey

/-- An envelope signed with the zero key is accepted under the key of 32
    ones, under which no signature verifies. -/
theorem envelope_accepted_under_other_key :
    let schemes := acceptKey (List.replicate 32 0)
    let publicKey : Bytes := List.replicate 32 1
    verifyAuto urlSafeNoPadDecode schemes [104, 105] zeroKeyEnvelope.toBytes publicKey = true ∧
    ¬ ContainsSignature schemes [104, 105] zeroKeyEnvelope.toBytes publicKey := by
  intro schemes publicKey
  constructor
  · rw [verifyAuto_eq_verify]
    unfold verify
    rw [fromBytes_zeroKeyEnvelope]
    refine verifyHybrid_acceptKey ⟨⟨_, decode_zeroKeyBase64, rfl⟩, rfl, ?_⟩ decode_zeroKeyBase64
    intro hhas
    cases hhas
  · intro ⟨sig, _, _, hver⟩
    simp [schemes, publicKey, acceptKey] at hver

/-! ## Section 3: Synchronous and asynchronous verification -/

/-- If the Ed25519 signature of the envelope is an envelope itself, neither
    path can accept: the synchronous one takes only 64 bytes, and the
    asynchronous one only an inner envelope with all lengths right, together
    with the ML-DSA part of the outer one, if the pool is there to check it. -/
def NestingHarmless (decode : Base64Decode) (pool : Bool) (signature : Bytes) : Prop :=
  ∀ hybrid inner key, HybridSignature.fromBytes signature = .ok hybrid →
    decode hybrid.ed25519PublicKey = some key →
    HybridSignature.fromBytes hybrid.ed25519Signature = .ok inner →
    (hybrid.ed25519Signature.length = 64 → key.length = 32 → ¬ MlDsaSized decode hybrid) ∧
    (WellSized decode inner →
      hybrid.hasMlDsa = true ∧ (pool = true → ¬ MlDsaSized decode hybrid))

theorem verifyAutoAsync_of_envelope {pool : Bool} {content signature publicKey : Bytes}
    {hybrid : HybridSignature} (hlen : signature.length > 64)
    (hparse : HybridSignature.fromBytes signature = .ok hybrid) :
    verifyAutoAsync decode schemes pool content signature publicKey =
      verifyHybridAsync decode schemes pool content hybrid := by
  unfold verifyAutoAsync
  rw [if_pos hlen, hparse]

theorem verifyAuto_of_envelope {content signature publicKey : Bytes} {hybrid : HybridSignature}
    (hparse : HybridSignature.fromBytes signature = .ok hybrid) :
    verifyAuto decode schemes content signature publicKey =
      verifyHybrid decode schemes content hybrid := by
  rw [verifyAuto_eq_verify]
  unfold verify
  rw [hparse]

/-- An inner envelope that can be accepted does not fit into 64 bytes. -/
theorem length_of_wellSized_inner {signature : Bytes} {inner : HybridSignature}
    (hparse : HybridSignature.fromBytes signature = .ok inner) (hwell : WellSized decode inner) :
    76 ≤ signature.length := by
  have hfit := (fromBytes_signature hparse).2
  have hsig := hwell.2.1
  omega

/-- The two paths agree on an envelope, if nesting is harmless. -/
theorem verifyHybridAsync_eq_verifyHybrid {pool : Bool} {content signature : Bytes}
    {hybrid : HybridSignature} (h : NestingHarmless decode pool signature)
    (hparse : HybridSignature.fromBytes signature = .ok hybrid) :
    verifyHybridAsync decode schemes pool content hybrid =
      verifyHybrid decode schemes content hybrid := by
  apply Bool.eq_iff_iff.mpr
  constructor
  · intro hasync
    obtain ⟨key, hdec, hin, hml, hnopool⟩ := verifyHybridAsync_eq_true.mp hasync
    unfold verify at hin
    cases hinner : HybridSignature.fromBytes hybrid.ed25519Signature with
    | error e =>
      rw [hinner] at hin
      exact verifyHybrid_eq_true.mpr ⟨key, hdec, hin, hml⟩
    | ok inner =>
      rw [hinner] at hin
      obtain ⟨hhas, hpool⟩ := (h hybrid inner key hparse hdec hinner).2
        (wellSized_of_verifyHybrid hin)
      -- without a pool the synchronous path has been asked as well
      cases pool with
      | true => exact absurd hml.sized (hpool rfl)
      | false => exact hnopool hhas rfl
  · intro hsync
    obtain ⟨key, hdec, hed, hml⟩ := verifyHybrid_eq_true.mp hsync
    refine verifyHybridAsync_eq_true.mpr ⟨key, hdec, ?_, hml, fun _ _ => hsync⟩
    obtain ⟨hsig, hkey, -⟩ := verifyEd25519_eq_true.mp hed
    unfold verify
    cases hinner : HybridSignature.fromBytes hybrid.ed25519Signature with
    | error e => exact hed
    | ok inner => exact absurd hml.sized ((h hybrid inner key hparse hdec hinner).1 hsig hkey)

/-- **The synchronous and the asynchronous path agree**, whatever the
    signature schemes accept, if and only if nesting is harmless. -/
theorem sync_async_agree_iff (decode : Base64Decode) (pool : Bool)
    (content signature publicKey : Bytes) :
    (∀ schemes, verifyAutoAsync decode schemes pool content signature publicKey =
      verifyAuto decode schemes content signature publicKey) ↔
    NestingHarmless decode pool signature := by
  constructor
  · intro hagree hybrid inner key hparse hdec hinner
    have hfit := (fromBytes_signature hparse).2
    constructor
    · intro hsig hkey hsized
      -- the synchronous path accepts 64 bytes, the asynchronous one reads a short envelope
      have hsync : verifyHybrid decode acceptAll content hybrid = true :=
        verifyHybrid_acceptAll ⟨⟨key, hdec, hkey⟩, hsig, hsized⟩
      have h := hagree acceptAll
      rw [verifyAuto_of_envelope hparse, hsync, verifyAutoAsync_of_envelope (by omega) hparse] at h
      obtain ⟨key', -, hin, -⟩ := verifyHybridAsync_eq_true.mp h
      unfold verify at hin
      rw [hinner] at hin
      have hlong := length_of_wellSized_inner hinner (wellSized_of_verifyHybrid hin)
      omega
    · intro hwell
      have hlong := length_of_wellSized_inner hinner hwell
      have hreject : verifyHybrid decode acceptAll content hybrid = false := by
        apply Bool.eq_false_iff.mpr
        intro haccept
        have hsig := (wellSized_of_verifyHybrid haccept).2.1
        omega
      have h := hagree acceptAll
      rw [verifyAuto_of_envelope hparse, hreject,
        verifyAutoAsync_of_envelope (by omega) hparse] at h
      have hin : verify decode acceptAll content hybrid.ed25519Signature key = true := by
        unfold verify
        rw [hinner]
        exact verifyHybrid_acceptAll hwell
      -- the asynchronous path accepts as soon as its ML-DSA part does
      have hrest : ¬ (mlDsaVerdict decode acceptAll content hybrid ∧
          (hybrid.hasMlDsa = true → pool = false →
            verifyHybrid decode acceptAll content hybrid = true)) := by
        intro hrest
        have haccept := verifyHybridAsync_eq_true.mpr ⟨key, hdec, hin, hrest.1, hrest.2⟩
        rw [h] at haccept
        cases haccept
      constructor
      · apply Classical.byContradiction
        intro hhas
        exact hrest ⟨fun hhas' => absurd hhas' hhas, fun hhas' => absurd hhas' hhas⟩
      · intro hpool hsized
        refine hrest ⟨mlDsaVerdict_of_sized (fun _ _ _ => rfl) hsized, ?_⟩
        intro _ hnopool
        rw [hpool] at hnopool
        cases hnopool
  · intro h schemes
    cases hparse : HybridSignature.fromBytes signature with
    | error e =>
      unfold verifyAutoAsync verifyAuto
      rw [hparse]
    | ok hybrid =>
      by_cases hlen : signature.length > 64
      · rw [verifyAutoAsync_of_envelope hlen hparse, verifyAuto_of_envelope hparse,
          verifyHybridAsync_eq_verifyHybrid h hparse]
      · unfold verifyAutoAsync
        rw [if_neg hlen, verifyAuto_eq_verify]

/-- The zero key's envelope, used as the Ed25519 signature of another one. -/
def nestedEnvelope : HybridSignature := ⟨zeroKeyEnvelope.toBytes, [], zeroKeyBase64, none⟩

/-- Only the asynchronous path accepts an envelope in an envelope. -/
theorem nested_envelope_accepted_async_only :
    let publicKey : Bytes := List.replicate 32 0
    verifyAutoAsync urlSafeNoPadDecode acceptAll true [104, 105] nestedEnvelope.toBytes
      publicKey = true ∧
    verifyAuto urlSafeNoPadDecode acceptAll [104, 105]
      nestedEnvelope.toBytes publicKey = false := by
  intro publicKey
  have hlen : zeroKeyEnvelope.toBytes.length = 123 := by decide +kernel
  have hparse : HybridSignature.fromBytes nestedEnvelope.toBytes = .ok nestedEnvelope := by
    refine fromBytes_toBytes ⟨?_, by decide, by decide +kernel, ?_⟩
    · show zeroKeyEnvelope.toBytes.length < 2 ^ 32
      omega
    · intro key hkey
      cases hkey
  have hwell : WellSized urlSafeNoPadDecode zeroKeyEnvelope := by
    refine ⟨⟨_, decode_zeroKeyBase64, rfl⟩, rfl, ?_⟩
    intro hhas
    cases hhas
  constructor
  · rw [verifyAutoAsync_of_envelope (by decide +kernel) hparse]
    refine verifyHybridAsync_eq_true.mpr ⟨_, decode_zeroKeyBase64, ?_, ?_, ?_⟩
    · have hinner : nestedEnvelope.ed25519Signature = zeroKeyEnvelope.toBytes := rfl
      unfold verify
      rw [hinner, fromBytes_zeroKeyEnvelope]
      exact verifyHybrid_acceptAll hwell
    · intro hhas
      cases hhas
    · intro hhas
      cases hhas
  · rw [verifyAuto_of_envelope hparse]
    apply Bool.eq_false_iff.mpr
    intro haccept
    have hsig : zeroKeyEnvelope.toBytes.length = 64 := (wellSized_of_verifyHybrid haccept).2.1
    omega

end Synvoid.Mesh
