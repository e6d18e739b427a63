import Synvoid.Framework.Checked

/-! # Hybrid signatures

    Model of the `HybridSignature` envelope
    (`synvoid-mesh-protocol/src/hybrid.rs`) and of the verification functions
    of `MeshMessageSigner` (`synvoid-mesh/src/mesh/protocol.rs`).

    An envelope holds an Ed25519 signature, an optional ML-DSA signature and
    the two public keys they are checked with, each with a length in front.
    What the encoder writes the parser reads back (`fromBytes_toBytes`).

    The two signature schemes and the base64 decoder are parameters. The
    lengths of keys and signatures are checked before a scheme is asked.
-/

namespace Synvoid.Mesh

open Synvoid.Framework

/-! ## Section 1: The envelope -/

structure HybridSignature where
  ed25519Signature : Bytes
  mlDsaSignature : Bytes
  ed25519PublicKey : String
  mlDsaPublicKey : Option String
  deriving DecidableEq

/-- The errors that parsing returns. -/
inductive HybridSignatureError where
  | invalidFormat
  | invalidEd25519Signature
  | invalidMlDsaSignature
  | invalidPublicKey
  deriving DecidableEq

def HybridSignature.hasMlDsa (h : HybridSignature) : Bool :=
  !h.mlDsaSignature.isEmpty && h.mlDsaPublicKey.isSome

/-- `str::as_bytes`. -/
def asBytes (s : String) : Bytes := s.toByteArray.data.toList

/-- `String::from_utf8`. -/
def fromUtf8 (bytes : Bytes) : Option String := String.fromUTF8? ⟨bytes.toArray⟩

theorem fromUtf8_asBytes (s : String) : fromUtf8 (asBytes s) = some s := by
  have hbytes : (⟨(asBytes s).toArray⟩ : ByteArray) = s.toByteArray := by simp [asBytes]
  unfold fromUtf8
  rw [hbytes]
  simp only [String.fromUTF8?, Option.dite_none_right_eq_some, Option.some.injEq]
  exact ⟨s.isValidUTF8, rfl⟩

/-- A field with its length in front, as 32 bits. -/
def writeField (field : Bytes) : Bytes := u32ToLe (UInt32.ofNat field.length) ++ field

def HybridSignature.toBytes (h : HybridSignature) : Bytes :=
  writeField h.ed25519Signature ++ writeField h.mlDsaSignature ++
    writeField (asBytes h.ed25519PublicKey) ++
    match h.mlDsaPublicKey with
    | some mlPk => writeField (asBytes mlPk)
    | none => u32ToLe 0

/-- The length at `offset`. -/
def lengthAt (bytes : Bytes) (offset : Nat) : Nat :=
  (u32FromLe (byteAt bytes offset) (byteAt bytes (offset + 1)) (byteAt bytes (offset + 2))
    (byteAt bytes (offset + 3))).toNat

/-- Reads a field and returns the offset behind it. -/
def readField (bytes : Bytes) (offset : Nat) (tooShort : HybridSignatureError) :
    Except HybridSignatureError (Bytes × Nat) :=
  if bytes.length < offset + 4 then .error .invalidFormat
  else
    let len := lengthAt bytes offset
    if bytes.length < offset + 4 + len then .error tooShort
    else .ok (slice bytes (offset + 4) (offset + 4 + len), offset + 4 + len)

/-- The last field may be missing, empty or cut off. -/
def readMlDsaPublicKey (bytes : Bytes) (offset : Nat) :
    Except HybridSignatureError (Option String) :=
  if offset + 4 ≤ bytes.length then
    let mlPkLen := lengthAt bytes offset
    if 0 < mlPkLen ∧ offset + 4 + mlPkLen ≤ bytes.length then
      match fromUtf8 (slice bytes (offset + 4) (offset + 4 + mlPkLen)) with
      | some s => .ok (some s)
      | none => .error .invalidPublicKey
    else .ok none
  else .ok none

def HybridSignature.fromBytes (bytes : Bytes) : Except HybridSignatureError HybridSignature := do
  let (ed25519Signature, offset) ← readField bytes 0 .invalidEd25519Signature
  let (mlDsaSignature, offset) ← readField bytes offset .invalidMlDsaSignature
  let (edPk, offset) ← readField bytes offset .invalidPublicKey
  match fromUtf8 edPk with
  | none => .error .invalidPublicKey
  | some ed25519PublicKey =>
      let mlDsaPublicKey ← readMlDsaPublicKey bytes offset
      return { ed25519Signature, mlDsaSignature, ed25519PublicKey, mlDsaPublicKey }

/-! ## Section 2: What the parser reads -/

theorem readField_ok {bytes field : Bytes} {offset next : Nat} {e : HybridSignatureError}
    (h : readField bytes offset e = .ok (field, next)) :
    next = offset + 4 + field.length ∧ next ≤ bytes.length ∧
      field = slice bytes (offset + 4) next := by
  unfold readField at h
  by_cases hlen : bytes.length < offset + 4
  · rw [if_pos hlen] at h
    cases h
  · rw [if_neg hlen] at h
    by_cases hfield : bytes.length < offset + 4 + lengthAt bytes offset
    · simp [hfield] at h
    · obtain ⟨rfl, rfl⟩ : slice bytes (offset + 4) (offset + 4 + lengthAt bytes offset) = field ∧
          offset + 4 + lengthAt bytes offset = next := by simpa [hfield] using h
      refine ⟨?_, by omega, rfl⟩
      rw [length_slice _ _ _ (by omega)]
      omega

/-- The Ed25519 signature of an envelope is part of it, and behind it there
    are at least two more lengths. -/
theorem fromBytes_signature {bytes : Bytes} {h : HybridSignature}
    (hok : HybridSignature.fromBytes bytes = .ok h) :
    h.ed25519Signature <:+: bytes ∧ h.ed25519Signature.length + 12 ≤ bytes.length := by
  unfold HybridSignature.fromBytes at hok
  cases hed : readField bytes 0 .invalidEd25519Signature with
  | error e => simp [hed, bind, Except.bind] at hok
  | ok r =>
    obtain ⟨ed25519Signature, offset⟩ := r
    simp only [hed, bind, Except.bind] at hok
    cases hml : readField bytes offset .invalidMlDsaSignature with
    | error e => simp [hml] at hok
    | ok r =>
      obtain ⟨mlDsaSignature, offset₁⟩ := r
      simp only [hml] at hok
      cases hpk : readField bytes offset₁ .invalidPublicKey with
      | error e => simp [hpk] at hok
      | ok r =>
        obtain ⟨edPk, offset₂⟩ := r
        simp only [hpk] at hok
        have hsig : h.ed25519Signature = ed25519Signature := by
          cases hutf : fromUtf8 edPk with
          | none => simp [hutf] at hok
          | some key =>
            cases hlast : readMlDsaPublicKey bytes offset₂ with
            | error e => simp [hutf, hlast] at hok
            | ok mlKey =>
              simp only [hutf, hlast, pure, Except.pure, Except.ok.injEq] at hok
              rw [← hok]
        obtain ⟨rfl, -, hslice⟩ := readField_ok hed
        obtain ⟨rfl, -, -⟩ := readField_ok hml
        obtain ⟨rfl, hfit, -⟩ := readField_ok hpk
        rw [hsig]
        refine ⟨?_, by omega⟩
        rw [hslice]
        exact ((List.take_prefix _ _).isInfix).trans (List.drop_suffix _ _).isInfix

/-! ### Round trip -/

/-- The encoder's lengths are 32 bits wide, and the parser takes an empty
    ML-DSA key for none. -/
structure HybridSignature.Encodable (h : HybridSignature) : Prop where
  ed25519Signature : h.ed25519Signature.length < 2 ^ 32
  mlDsaSignature : h.mlDsaSignature.length < 2 ^ 32
  ed25519PublicKey : (asBytes h.ed25519PublicKey).length < 2 ^ 32
  mlDsaPublicKey : ∀ key, h.mlDsaPublicKey = some key →
    0 < (asBytes key).length ∧ (asBytes key).length < 2 ^ 32

theorem length_writeField (field : Bytes) : (writeField field).length = 4 + field.length := by
  simp [writeField]

theorem lengthAt_u32ToLe (pre post : Bytes) (n : UInt32) :
    lengthAt (pre ++ (u32ToLe n ++ post)) pre.length = n.toNat := by
  unfold lengthAt
  have h₀ := byteAt_append_right pre (u32ToLe n ++ post) 0
  rw [Nat.add_zero] at h₀
  rw [h₀, byteAt_append_right, byteAt_append_right, byteAt_append_right]
  exact congrArg UInt32.toNat (u32FromLe_u32ToLe n)

theorem slice_field (pre field post : Bytes) :
    slice (pre ++ (u32ToLe (UInt32.ofNat field.length) ++ (field ++ post))) (pre.length + 4)
      (pre.length + 4 + field.length) = field := by
  unfold slice
  rw [Nat.add_sub_cancel_left, ← List.append_assoc, ← List.append_assoc, List.append_assoc _ field,
    List.drop_left' (by simp), List.take_left]

theorem lengthAt_writeField (pre post : Bytes) {field : Bytes} (hlen : field.length < 2 ^ 32) :
    lengthAt (pre ++ (writeField field ++ post)) pre.length = field.length := by
  unfold writeField
  rw [List.append_assoc, lengthAt_u32ToLe, UInt32.toNat_ofNat', Nat.mod_eq_of_lt hlen]

theorem readField_writeField (pre post : Bytes) {field : Bytes} (hlen : field.length < 2 ^ 32)
    (e : HybridSignatureError) :
    readField (pre ++ (writeField field ++ post)) pre.length e =
      .ok (field, pre.length + 4 + field.length) := by
  have hread := lengthAt_writeField pre post hlen
  unfold readField
  rw [hread, if_neg (by simp [length_writeField]; omega),
    if_neg (by simp [length_writeField]; omega)]
  unfold writeField
  rw [List.append_assoc, slice_field]

theorem readMlDsaPublicKey_writeField (pre : Bytes) {key : String} (hpos : 0 < (asBytes key).length)
    (hlen : (asBytes key).length < 2 ^ 32) :
    readMlDsaPublicKey (pre ++ writeField (asBytes key)) pre.length = .ok (some key) := by
  have hread := lengthAt_writeField pre [] hlen
  have hslice := slice_field pre (asBytes key) []
  rw [List.append_nil] at hread hslice
  unfold readMlDsaPublicKey
  rw [hread, if_pos (by simp [length_writeField]),
    if_pos ⟨hpos, by simp [length_writeField]; omega⟩]
  unfold writeField
  rw [hslice, fromUtf8_asBytes]

theorem readMlDsaPublicKey_none (pre : Bytes) :
    readMlDsaPublicKey (pre ++ u32ToLe 0) pre.length = .ok none := by
  have hread := lengthAt_u32ToLe pre [] 0
  rw [List.append_nil] at hread
  unfold readMlDsaPublicKey
  rw [hread]
  simp

theorem fromBytes_of_reads {bytes ed ml edPk : Bytes} {offset offset₁ offset₂ : Nat}
    {edKey : String} {mlKey : Option String}
    (hed : readField bytes 0 .invalidEd25519Signature = .ok (ed, offset))
    (hml : readField bytes offset .invalidMlDsaSignature = .ok (ml, offset₁))
    (hpk : readField bytes offset₁ .invalidPublicKey = .ok (edPk, offset₂))
    (hkey : fromUtf8 edPk = some edKey) (hlast : readMlDsaPublicKey bytes offset₂ = .ok mlKey) :
    HybridSignature.fromBytes bytes = .ok ⟨ed, ml, edKey, mlKey⟩ := by
  unfold HybridSignature.fromBytes
  simp only [hed, hml, hpk, hkey, hlast, bind, Except.bind]
  rfl

/-- **Round trip.** -/
theorem fromBytes_toBytes {h : HybridSignature} (henc : h.Encodable) :
    HybridSignature.fromBytes h.toBytes = .ok h := by
  obtain ⟨ed, ml, edKey, mlKey⟩ := h
  obtain ⟨hed, hml, hkey, hmlKey⟩ := henc
  simp only at hed hml hkey hmlKey
  generalize hlast : (match mlKey with
    | some mlPk => writeField (asBytes mlPk)
    | none => u32ToLe 0) = last
  have hbytes : HybridSignature.toBytes ⟨ed, ml, edKey, mlKey⟩ =
      writeField ed ++ writeField ml ++ writeField (asBytes edKey) ++ last := by
    unfold HybridSignature.toBytes
    rw [hlast]
  -- each read starts behind the fields before it
  have h₁ := readField_writeField [] (writeField ml ++ writeField (asBytes edKey) ++ last) hed
    .invalidEd25519Signature
  have h₂ := readField_writeField (writeField ed) (writeField (asBytes edKey) ++ last) hml
    .invalidMlDsaSignature
  have h₃ := readField_writeField (writeField ed ++ writeField ml) last hkey .invalidPublicKey
  have h₄ :
      readMlDsaPublicKey (writeField ed ++ writeField ml ++ writeField (asBytes edKey) ++ last)
      (writeField ed ++ writeField ml ++ writeField (asBytes edKey)).length = .ok mlKey := by
    cases mlKey with
    | none =>
      subst hlast
      exact readMlDsaPublicKey_none _
    | some key =>
      subst hlast
      exact readMlDsaPublicKey_writeField _ (hmlKey key rfl).1 (hmlKey key rfl).2
  simp only [List.length_append, length_writeField, List.append_assoc, List.nil_append,
    List.length_nil, Nat.zero_add] at h₁ h₂ h₃ h₄
  rw [hbytes]
  simp only [List.append_assoc]
  exact fromBytes_of_reads h₁ h₂ (by rw [Nat.add_assoc, h₃]) (fromUtf8_asBytes edKey)
    (by rw [Nat.add_assoc, Nat.add_assoc, h₄])

/-! ## Section 3: Verification -/

/-- The two signature schemes, asked with a key, a message and a signature of
    the right lengths. -/
structure SignatureSchemes where
  ed25519 : (publicKey content signature : Bytes) → Bool
  mlDsa : (verifyingKey message signature : Bytes) → Bool

/-- `URL_SAFE_NO_PAD.decode`. -/
abbrev Base64Decode := String → Option Bytes

section verification
variable (decode : Base64Decode) (schemes : SignatureSchemes)

def verifyEd25519 (content signature publicKey : Bytes) : Bool :=
  if signature.length ≠ 64 ∨ publicKey.length ≠ 32 then false
  else schemes.ed25519 publicKey content signature

/-- `pqc::VerifyingKey::from_bytes`. -/
def verifyingKeyFromBytes (bytes : Bytes) : Option Bytes :=
  if bytes.length ≠ 1312 then none else some bytes

/-- `pqc::Signature::from_bytes`. -/
def signatureFromBytes (bytes : Bytes) : Option Bytes :=
  if bytes.length ≠ 2420 then none else some bytes

/-- `MeshMlDsaVerifier::from_base64`. -/
def mlDsaVerifierFromBase64 (b64 : String) : Option Bytes :=
  (decode b64).bind verifyingKeyFromBytes

/-- `MeshMlDsaVerifier::verify`. -/
def mlDsaVerifierVerify (verifyingKey message signature : Bytes) : Bool :=
  match signatureFromBytes signature with
  | none => false
  | some sig => schemes.mlDsa verifyingKey message sig

/-- `CryptoVerificationPool::verify_ml_dsa_standalone`. -/
def verifyMlDsaStandalone (verifyingKeyBytes message signature : Bytes) : Bool :=
  match verifyingKeyFromBytes verifyingKeyBytes with
  | none => false
  | some verifyingKey =>
      match signatureFromBytes signature with
      | none => false
      | some sig => schemes.mlDsa verifyingKey message sig

/-- The key is the one in the envelope. -/
def verifyHybrid (content : Bytes) (hybrid : HybridSignature) : Bool :=
  match decode hybrid.ed25519PublicKey with
  | none => false
  | some pkBytes =>
      if !verifyEd25519 schemes content hybrid.ed25519Signature pkBytes then false
      else if hybrid.hasMlDsa then
        match hybrid.mlDsaPublicKey with
        | none => false
        | some mlPkB64 =>
            match mlDsaVerifierFromBase64 decode mlPkB64 with
            | none => false
            | some verifier => mlDsaVerifierVerify schemes verifier content hybrid.mlDsaSignature
      else true

def verify (content signature publicKey : Bytes) : Bool :=
  match HybridSignature.fromBytes signature with
  | .ok hybrid => verifyHybrid decode schemes content hybrid
  | .error _ => verifyEd25519 schemes content signature publicKey

def verifyAuto (content signature publicKey : Bytes) : Bool :=
  if signature.length > 64 then
    match HybridSignature.fromBytes signature with
    | .ok hybrid => verifyHybrid decode schemes content hybrid
    | .error _ => verify decode schemes content signature publicKey
  else verify decode schemes content signature publicKey

/-- `pool` says whether the signer has a verification pool. -/
def verifyHybridAsync (pool : Bool) (content : Bytes) (hybrid : HybridSignature) : Bool :=
  match decode hybrid.ed25519PublicKey with
  | none => false
  | some pkBytes =>
      -- unlike `verifyHybrid` this takes the inner signature for an envelope if it can
      if !verify decode schemes content hybrid.ed25519Signature pkBytes then false
      else if hybrid.hasMlDsa then
        match hybrid.mlDsaPublicKey, pool with
        | some mlPkB64, true =>
            match decode mlPkB64 with
            | none => false
            | some mlPkBytes =>
                verifyMlDsaStandalone schemes mlPkBytes content hybrid.mlDsaSignature
        | _, _ => verifyHybrid decode schemes content hybrid
      else true

def verifyAutoAsync (pool : Bool) (content signature publicKey : Bytes) : Bool :=
  if signature.length > 64 then
    match HybridSignature.fromBytes signature with
    | .ok hybrid => verifyHybridAsync decode schemes pool content hybrid
    | .error _ => verify decode schemes content signature publicKey
  else verify decode schemes content signature publicKey

end verification

/-! ## Section 4: Verdicts -/

variable {decode : Base64Decode} {schemes : SignatureSchemes}

theorem verifyEd25519_eq_true {content signature publicKey : Bytes} :
    verifyEd25519 schemes content signature publicKey = true ↔
    signature.length = 64 ∧ publicKey.length = 32 ∧
      schemes.ed25519 publicKey content signature = true := by
  unfold verifyEd25519
  by_cases hs : signature.length = 64 <;> by_cases hk : publicKey.length = 32 <;> simp [hs, hk]

/-- The verdict on the ML-DSA part of an envelope. -/
def mlDsaVerdict (decode : Base64Decode) (schemes : SignatureSchemes) (content : Bytes)
    (hybrid : HybridSignature) : Prop :=
  hybrid.hasMlDsa = true → ∃ mlPkB64 key, hybrid.mlDsaPublicKey = some mlPkB64 ∧
    decode mlPkB64 = some key ∧ key.length = 1312 ∧ hybrid.mlDsaSignature.length = 2420 ∧
    schemes.mlDsa key content hybrid.mlDsaSignature = true

/-- The lengths of the ML-DSA part are right, if there is one. -/
def MlDsaSized (decode : Base64Decode) (hybrid : HybridSignature) : Prop :=
  hybrid.hasMlDsa = true → ∃ mlPkB64 key, hybrid.mlDsaPublicKey = some mlPkB64 ∧
    decode mlPkB64 = some key ∧ key.length = 1312 ∧ hybrid.mlDsaSignature.length = 2420

theorem mlDsaVerdict.sized {content : Bytes} {hybrid : HybridSignature}
    (h : mlDsaVerdict decode schemes content hybrid) : MlDsaSized decode hybrid := by
  intro hhas
  obtain ⟨mlPkB64, key, hpk, hdec, hkey, hsig, -⟩ := h hhas
  exact ⟨mlPkB64, key, hpk, hdec, hkey, hsig⟩

theorem verifyMlDsaStandalone_eq_true {key content signature : Bytes} :
    verifyMlDsaStandalone schemes key content signature = true ↔
    key.length = 1312 ∧ signature.length = 2420 ∧ schemes.mlDsa key content signature = true := by
  unfold verifyMlDsaStandalone verifyingKeyFromBytes signatureFromBytes
  by_cases hk : key.length = 1312 <;> by_cases hs : signature.length = 2420 <;> simp [hk, hs]

theorem mlDsaVerifierVerify_eq_true {key content signature : Bytes} :
    mlDsaVerifierVerify schemes key content signature = true ↔
    signature.length = 2420 ∧ schemes.mlDsa key content signature = true := by
  unfold mlDsaVerifierVerify signatureFromBytes
  by_cases hs : signature.length = 2420 <;> simp [hs]

theorem mlDsaVerifierFromBase64_eq_some {b64 : String} {key : Bytes} :
    mlDsaVerifierFromBase64 decode b64 = some key ↔ decode b64 = some key ∧ key.length = 1312 := by
  unfold mlDsaVerifierFromBase64
  rw [Option.bind_eq_some_iff]
  constructor
  · intro ⟨bytes, hdec, hlen⟩
    unfold verifyingKeyFromBytes at hlen
    split_ifs at hlen with h
    obtain rfl := Option.some.inj hlen
    exact ⟨hdec, not_not.mp h⟩
  · intro h
    exact ⟨key, h.1, by simp [verifyingKeyFromBytes, h.2]⟩

theorem verifyHybrid_eq_true {content : Bytes} {hybrid : HybridSignature} :
    verifyHybrid decode schemes content hybrid = true ↔
    ∃ key, decode hybrid.ed25519PublicKey = some key ∧
      verifyEd25519 schemes content hybrid.ed25519Signature key = true ∧
      mlDsaVerdict decode schemes content hybrid := by
  unfold verifyHybrid mlDsaVerdict
  cases hdec : decode hybrid.ed25519PublicKey with
  | none => simp
  | some key =>
    cases hed : verifyEd25519 schemes content hybrid.ed25519Signature key with
    | false => simp [hed]
    | true =>
      cases hhas : hybrid.hasMlDsa with
      | false => simp [hed]
      | true =>
        cases hpk : hybrid.mlDsaPublicKey with
        | none => simp [hed]
        | some mlPkB64 =>
          cases hver : mlDsaVerifierFromBase64 decode mlPkB64 with
          | none =>
            have hnone : ∀ mlKey, decode mlPkB64 = some mlKey → mlKey.length ≠ 1312 := by
              intro mlKey hkey hlen
              simp [mlDsaVerifierFromBase64_eq_some.mpr ⟨hkey, hlen⟩] at hver
            simp only [hed, hver]
            grind
          | some mlKey =>
            obtain ⟨hkey, hlen⟩ := mlDsaVerifierFromBase64_eq_some.mp hver
            simp [hed, hver, mlDsaVerifierVerify_eq_true, hkey, hlen]

/-- The asynchronous path asks `verify`, and without a pool `verifyHybrid` on
    top, if there is an ML-DSA part. -/
theorem verifyHybridAsync_eq_true {pool : Bool} {content : Bytes} {hybrid : HybridSignature} :
    verifyHybridAsync decode schemes pool content hybrid = true ↔
    ∃ key, decode hybrid.ed25519PublicKey = some key ∧
      verify decode schemes content hybrid.ed25519Signature key = true ∧
      mlDsaVerdict decode schemes content hybrid ∧
      (hybrid.hasMlDsa = true → pool = false →
        verifyHybrid decode schemes content hybrid = true) := by
  unfold verifyHybridAsync
  cases hdec : decode hybrid.ed25519PublicKey with
  | none => simp
  | some key =>
    cases hin : verify decode schemes content hybrid.ed25519Signature key with
    | false => simp [hin]
    | true =>
      cases hhas : hybrid.hasMlDsa with
      | false => simp [hin, mlDsaVerdict, hhas]
      | true =>
        cases pool with
        | false =>
          have hverdict : verifyHybrid decode schemes content hybrid = true →
              mlDsaVerdict decode schemes content hybrid := by
            intro h
            obtain ⟨_, _, _, hml⟩ := verifyHybrid_eq_true.mp h
            exact hml
          cases hpk : hybrid.mlDsaPublicKey <;> simpa [hin, hpk] using hverdict
        | true =>
          obtain ⟨mlPkB64, hpk⟩ : ∃ mlPkB64, hybrid.mlDsaPublicKey = some mlPkB64 := by
            simp only [HybridSignature.hasMlDsa, Bool.and_eq_true] at hhas
            exact Option.isSome_iff_exists.mp hhas.2
          cases hmlDec : decode mlPkB64 with
          | none => simp [hin, hpk, hmlDec, mlDsaVerdict, hhas]
          | some mlKey =>
            simp [hin, hpk, hmlDec, mlDsaVerdict, hhas, verifyMlDsaStandalone_eq_true]

/-- The length test of `verifyAuto` makes no difference, since `verify` tries
    the envelope as well. -/
theorem verifyAuto_eq_verify (content signature publicKey : Bytes) :
    verifyAuto decode schemes content signature publicKey =
      verify decode schemes content signature publicKey := by
  unfold verifyAuto verify
  split_ifs
  · cases HybridSignature.fromBytes signature <;> rfl
  · rfl

/-! ### A base64 decoder

    The decoder of the base64 crate for `URL_SAFE_NO_PAD`: no padding, and the
    unused bits of the last character are zero. Used where a concrete decoder
    is needed. -/

def base64Value (c : Char) : Option Nat :=
  let n := c.toNat
  if 65 ≤ n ∧ n ≤ 90 then some (n - 65)
  else if 97 ≤ n ∧ n ≤ 122 then some (n - 71)
  else if 48 ≤ n ∧ n ≤ 57 then some (n + 4)
  else if c = '-' then some 62
  else if c = '_' then some 63
  else none

def base64Groups : List Nat → Option Bytes
  | [] => some []
  | [_] => none
  | [a, b] => if b % 16 = 0 then some [UInt8.ofNat (a * 4 + b / 16)] else none
  | [a, b, c] =>
      if c % 4 = 0 then some [UInt8.ofNat (a * 4 + b / 16), UInt8.ofNat (b % 16 * 16 + c / 4)]
      else none
  | a :: b :: c :: d :: rest =>
      (base64Groups rest).map fun bytes =>
        UInt8.ofNat (a * 4 + b / 16) :: UInt8.ofNat (b % 16 * 16 + c / 4) ::
          UInt8.ofNat (c % 4 * 64 + d) :: bytes

def urlSafeNoPadDecode (s : String) : Option Bytes := (s.toList.mapM base64Value).bind base64Groups

/-- The key of 32 zero bytes, in base64. -/
def zeroKeyBase64 : String := "AAAAAAAAAAAAAAAAAAAAAAAAAAAAAAAAAAAAAAAAAAA"

theorem decode_zeroKeyBase64 :
    urlSafeNoPadDecode zeroKeyBase64 = some (List.replicate 32 0) := by
  decide +kernel

/-- Schemes that accept everything. -/
def acceptAll : SignatureSchemes := ⟨fun _ _ _ => true, fun _ _ _ => true⟩

end Synvoid.Mesh
