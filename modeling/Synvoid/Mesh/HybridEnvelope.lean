import Synvoid.Mesh.HybridSignature

/-! # Encodings of a hybrid signature

    `HybridSignature::from_bytes` with its bounds-checked accesses, and which
    byte strings it accepts besides what `to_bytes` writes. The last field may
    be missing or cut off, and nothing is said about what stands behind it, so
    that one envelope has many encodings (`envelope_encoding_iff`).
-/

namespace Synvoid.Mesh

open Synvoid.Framework

/-! ### The parser's accesses -/

/-- `u32::from_le_bytes(bytes[offset..offset + 4].try_into()?)`. -/
def readLength (bytes : Bytes) (offset : Nat) : Checked Nat := do
  let length ← range bytes offset (offset + 4)
  return lengthAt length 0

/-- A field of known length. -/
def takeField (bytes : Bytes) (start len : Nat) (tooShort : HybridSignatureError) :
    Checked (Except HybridSignatureError (Bytes × Nat)) :=
  if bytes.length < start + len then return .error tooShort
  else do
    let field ← range bytes start (start + len)
    return .ok (field, start + len)

def readFieldChecked (bytes : Bytes) (offset : Nat) (tooShort : HybridSignatureError) :
    Checked (Except HybridSignatureError (Bytes × Nat)) :=
  if bytes.length < offset + 4 then return .error .invalidFormat
  else do
    let len ← readLength bytes offset
    takeField bytes (offset + 4) len tooShort

/-- `.map_err(|_| HybridSignatureError::InvalidPublicKey)?`, then `Some(s)`. -/
def keyOf : Option String → Except HybridSignatureError (Option String)
  | some s => .ok (some s)
  | none => .error .invalidPublicKey

def takeMlDsaPublicKey (bytes : Bytes) (start mlPkLen : Nat) :
    Checked (Except HybridSignatureError (Option String)) :=
  if 0 < mlPkLen ∧ start + mlPkLen ≤ bytes.length then do
    let key ← range bytes start (start + mlPkLen)
    return keyOf (fromUtf8 key)
  else return .ok none

def readMlDsaPublicKeyChecked (bytes : Bytes) (offset : Nat) :
    Checked (Except HybridSignatureError (Option String)) :=
  if offset + 4 ≤ bytes.length then do
    let mlPkLen ← readLength bytes offset
    takeMlDsaPublicKey bytes (offset + 4) mlPkLen
  else return .ok none

/-- `HybridSignature::from_bytes`, access by access. -/
def HybridSignature.fromBytesChecked (bytes : Bytes) :
    Checked (Except HybridSignatureError HybridSignature) :=
  tryThen (readFieldChecked bytes 0 .invalidEd25519Signature) fun (ed25519Signature, offset) =>
  tryThen (readFieldChecked bytes offset .invalidMlDsaSignature) fun (mlDsaSignature, offset) =>
  tryThen (readFieldChecked bytes offset .invalidPublicKey) fun (edPk, offset) =>
    match fromUtf8 edPk with
    | none => return .error .invalidPublicKey
    | some ed25519PublicKey =>
        tryThen (readMlDsaPublicKeyChecked bytes offset) fun mlDsaPublicKey =>
          return .ok { ed25519Signature, mlDsaSignature, ed25519PublicKey, mlDsaPublicKey }

theorem readLength_eq {bytes : Bytes} {offset : Nat} (h : offset + 4 ≤ bytes.length) :
    readLength bytes offset = .ok (lengthAt bytes offset) := by
  have hlength : lengthAt (slice bytes offset (offset + 4)) 0 = lengthAt bytes offset := by
    rw [slice_four h]
    simp only [lengthAt, byteAt, List.getD_cons_zero, List.getD_cons_succ, Nat.zero_add]
  unfold readLength range
  rw [if_pos ⟨Nat.le_add_right _ _, h⟩, ← hlength]
  rfl

theorem takeField_eq (bytes : Bytes) (start len : Nat) (tooShort : HybridSignatureError) :
    takeField bytes start len tooShort =
      .ok (if bytes.length < start + len then .error tooShort
        else .ok (slice bytes start (start + len), start + len)) := by
  unfold takeField
  by_cases hfits : bytes.length < start + len
  · rw [if_pos hfits, if_pos hfits]
    rfl
  · rw [if_neg hfits, if_neg hfits, range, if_pos ⟨Nat.le_add_right _ _, Nat.not_lt.mp hfits⟩]
    rfl

theorem takeMlDsaPublicKey_eq (bytes : Bytes) (start mlPkLen : Nat) :
    takeMlDsaPublicKey bytes start mlPkLen =
      .ok (if 0 < mlPkLen ∧ start + mlPkLen ≤ bytes.length then
        keyOf (fromUtf8 (slice bytes start (start + mlPkLen)))
      else .ok none) := by
  unfold takeMlDsaPublicKey
  by_cases hfits : 0 < mlPkLen ∧ start + mlPkLen ≤ bytes.length
  · rw [if_pos hfits, if_pos hfits, range, if_pos ⟨Nat.le_add_right _ _, hfits.2⟩]
    rfl
  · rw [if_neg hfits, if_neg hfits]
    rfl

/-- A field whose length is there. -/
theorem readField_of_length {bytes : Bytes} {offset : Nat} (h : ¬ bytes.length < offset + 4)
    (tooShort : HybridSignatureError) :
    readField bytes offset tooShort =
      if bytes.length < offset + 4 + lengthAt bytes offset then .error tooShort
      else .ok (slice bytes (offset + 4) (offset + 4 + lengthAt bytes offset),
        offset + 4 + lengthAt bytes offset) := by
  rw [readField, if_neg h]

theorem readFieldChecked_of_length {bytes : Bytes} {offset : Nat} (h : ¬ bytes.length < offset + 4)
    (tooShort : HybridSignatureError) :
    readFieldChecked bytes offset tooShort =
      takeField bytes (offset + 4) (lengthAt bytes offset) tooShort := by
  rw [readFieldChecked, if_neg h, readLength_eq (Nat.not_lt.mp h), ok_bind]

theorem readFieldChecked_eq (bytes : Bytes) (offset : Nat) (tooShort : HybridSignatureError) :
    readFieldChecked bytes offset tooShort = .ok (readField bytes offset tooShort) := by
  by_cases h : bytes.length < offset + 4
  · rw [readFieldChecked, readField, if_pos h, if_pos h]
    rfl
  · rw [readFieldChecked_of_length h, readField_of_length h, takeField_eq]

theorem readMlDsaPublicKey_of_length {bytes : Bytes} {offset : Nat}
    (h : offset + 4 ≤ bytes.length) :
    readMlDsaPublicKey bytes offset =
      if 0 < lengthAt bytes offset ∧ offset + 4 + lengthAt bytes offset ≤ bytes.length then
        keyOf (fromUtf8 (slice bytes (offset + 4) (offset + 4 + lengthAt bytes offset)))
      else .ok none := by
  rw [readMlDsaPublicKey, if_pos h]
  simp only
  split
  · cases fromUtf8 (slice bytes (offset + 4) (offset + 4 + lengthAt bytes offset)) <;> rfl
  · rfl

theorem readMlDsaPublicKeyChecked_of_length {bytes : Bytes} {offset : Nat}
    (h : offset + 4 ≤ bytes.length) :
    readMlDsaPublicKeyChecked bytes offset =
      takeMlDsaPublicKey bytes (offset + 4) (lengthAt bytes offset) := by
  rw [readMlDsaPublicKeyChecked, if_pos h, readLength_eq h, ok_bind]

theorem readMlDsaPublicKeyChecked_eq (bytes : Bytes) (offset : Nat) :
    readMlDsaPublicKeyChecked bytes offset = .ok (readMlDsaPublicKey bytes offset) := by
  by_cases h : offset + 4 ≤ bytes.length
  · rw [readMlDsaPublicKeyChecked_of_length h, readMlDsaPublicKey_of_length h,
      takeMlDsaPublicKey_eq]
  · rw [readMlDsaPublicKeyChecked, readMlDsaPublicKey, if_neg h, if_neg h]
    rfl

/-- No access is out of range. -/
theorem fromBytesChecked_eq (bytes : Bytes) :
    HybridSignature.fromBytesChecked bytes = .ok (HybridSignature.fromBytes bytes) := by
  unfold HybridSignature.fromBytesChecked HybridSignature.fromBytes tryThen
  simp only [readFieldChecked_eq, readMlDsaPublicKeyChecked_eq, bind, Except.bind]
  cases readField bytes 0 .invalidEd25519Signature with
  | error e => rfl
  | ok first =>
    simp only
    cases readField bytes first.2 .invalidMlDsaSignature with
    | error e => rfl
    | ok second =>
      simp only
      cases readField bytes second.2 .invalidPublicKey with
      | error e => rfl
      | ok third =>
        simp only
        cases fromUtf8 third.1 with
        | none => rfl
        | some key =>
          simp only
          cases readMlDsaPublicKey bytes third.2 <;> rfl

/-! ### What an accepted envelope looks like -/

theorem asBytes_of_fromUtf8 {bytes : Bytes} {s : String} (h : fromUtf8 bytes = some s) :
    asBytes s = bytes := by
  unfold fromUtf8 String.fromUTF8? at h
  split at h
  · obtain rfl := Option.some.inj h
    rfl
  · cases h

theorem slice_length {bytes : Bytes} {offset : Nat} (h : offset + 4 ≤ bytes.length) :
    slice bytes offset (offset + 4) = u32ToLe (UInt32.ofNat (lengthAt bytes offset)) := by
  unfold lengthAt
  rw [UInt32.ofNat_toNat, u32ToLe_u32FromLe, slice_four h]

/-- A field that is read stands in the bytes as it is written. -/
theorem slice_of_readField {bytes field : Bytes} {offset next : Nat} {e : HybridSignatureError}
    (h : readField bytes offset e = .ok (field, next)) :
    slice bytes offset next = writeField field ∧ next = offset + 4 + lengthAt bytes offset := by
  obtain ⟨hnext, hle, hfield⟩ := readField_ok h
  have hlength : lengthAt bytes offset = field.length := by
    unfold readField at h
    rw [if_neg (by omega)] at h
    simp only at h
    split at h
    · cases h
    · have := (Prod.mk.inj (Except.ok.inj h)).2
      omega
  refine ⟨?_, by omega⟩
  rw [← slice_append_slice bytes (show offset ≤ offset + 4 by omega)
    (show offset + 4 ≤ next by omega),
    slice_length (by omega), hlength, ← hfield]
  rfl

/-- Where the third field ends. -/
def keyEnd (bytes : Bytes) : Nat :=
  let first := 4 + lengthAt bytes 0
  let second := first + 4 + lengthAt bytes first
  second + 4 + lengthAt bytes second

/-- The last field is there, it is complete, and nothing stands behind it. -/
def EndsWithLastField (bytes : Bytes) : Prop :=
  bytes.length = keyEnd bytes + 4 + lengthAt bytes (keyEnd bytes)

instance (bytes : Bytes) : Decidable (EndsWithLastField bytes) :=
  inferInstanceAs (Decidable (_ = _))

/-- What the encoder writes for the last field. -/
def writeLastField : Option String → Bytes
  | some mlPk => writeField (asBytes mlPk)
  | none => u32ToLe 0

theorem length_writeLastField (key : Option String) :
    (writeLastField key).length = 4 + (key.elim 0 fun s => (asBytes s).length) := by
  cases key with
  | none => rfl
  | some s => exact length_writeField _

theorem toBytes_eq (h : HybridSignature) :
    h.toBytes = writeField h.ed25519Signature ++ writeField h.mlDsaSignature ++
      writeField (asBytes h.ed25519PublicKey) ++ writeLastField h.mlDsaPublicKey := by
  unfold HybridSignature.toBytes
  cases h.mlDsaPublicKey <;> rfl

/-- An accepted envelope starts with the first three fields as they are written. -/
theorem fromBytes_eq_ok {bytes : Bytes} {h : HybridSignature}
    (hok : HybridSignature.fromBytes bytes = .ok h) :
    bytes.take (keyEnd bytes) = writeField h.ed25519Signature ++ writeField h.mlDsaSignature ++
        writeField (asBytes h.ed25519PublicKey) ∧
      keyEnd bytes ≤ bytes.length ∧
      readMlDsaPublicKey bytes (keyEnd bytes) = .ok h.mlDsaPublicKey := by
  obtain ⟨⟨ed, offset⟩, hed, hok⟩ := bind_eq_ok hok
  obtain ⟨⟨ml, offset₁⟩, hml, hok⟩ := bind_eq_ok hok
  obtain ⟨⟨edPk, offset₂⟩, hpk, hok⟩ := bind_eq_ok hok
  simp only at hml hpk hok
  cases hkey : fromUtf8 edPk with
  | none => simp [hkey] at hok
  | some key =>
    simp only [hkey] at hok
    obtain ⟨mlKey, hlast, hok⟩ := bind_eq_ok hok
    obtain rfl := Except.ok.inj hok
    obtain ⟨hslice, rfl⟩ := slice_of_readField hed
    obtain ⟨hslice₁, rfl⟩ := slice_of_readField hml
    obtain ⟨hslice₂, rfl⟩ := slice_of_readField hpk
    have hend :
        keyEnd bytes = 0 + 4 + lengthAt bytes 0 + 4 + lengthAt bytes (0 + 4 + lengthAt bytes 0) +
        4 + lengthAt bytes (0 + 4 + lengthAt bytes 0 + 4 +
          lengthAt bytes (0 + 4 + lengthAt bytes 0)) := by
      simp [keyEnd]
    rw [← hend] at hslice₂ hlast
    refine ⟨?_, ?_, hlast⟩
    · rw [asBytes_of_fromUtf8 hkey, ← hslice, ← hslice₁, ← hslice₂,
        slice_append_slice _ (by omega) (by omega), slice_append_slice _ (by omega) (by omega)]
      simp [slice]
    · rw [hend]
      exact (readField_ok hpk).2.1

/-- The last field as it is written, if it is what the bytes end with. -/
theorem drop_keyEnd {bytes : Bytes} {pos : Nat} {key : Option String}
    (hread : readMlDsaPublicKey bytes pos = .ok key)
    (hends : bytes.length = pos + 4 + lengthAt bytes pos) :
    bytes.drop pos = writeLastField key := by
  have hlength := @slice_length bytes pos (by omega)
  have hdrop : bytes.drop pos =
      slice bytes pos (pos + 4) ++ slice bytes (pos + 4) (pos + 4 + lengthAt bytes pos) := by
    rw [slice_append_slice _ (by omega) (by omega), ← hends, slice_to_end]
  unfold readMlDsaPublicKey at hread
  rw [if_pos (by omega)] at hread
  simp only at hread
  split at hread
  · next hpos =>
    cases hutf : fromUtf8 (slice bytes (pos + 4) (pos + 4 + lengthAt bytes pos)) with
    | none => simp [hutf] at hread
    | some s =>
      rw [hutf] at hread
      obtain rfl := Except.ok.inj hread
      have hbytes := asBytes_of_fromUtf8 hutf
      have hsize : (asBytes s).length = lengthAt bytes pos := by
        rw [hbytes, length_slice _ _ _ (by omega)]
        omega
      rw [hdrop, hlength, ← hbytes, ← hsize]
      rfl
  · next hempty =>
    obtain rfl := Except.ok.inj hread
    have hzero : lengthAt bytes pos = 0 := by omega
    rw [hdrop, hlength, hzero]
    simp [slice, writeLastField]

/-- The converse: what is written for the last field says where it ends. -/
theorem length_of_drop {bytes : Bytes} {pos : Nat} {key : Option String} (hle : pos ≤ bytes.length)
    (hread : readMlDsaPublicKey bytes pos = .ok key) (hdrop : bytes.drop pos = writeLastField key) :
    bytes.length = pos + 4 + lengthAt bytes pos := by
  have hlengths := congrArg List.length hdrop
  rw [List.length_drop, length_writeLastField] at hlengths
  unfold readMlDsaPublicKey at hread
  rw [if_pos (by omega)] at hread
  simp only at hread
  split at hread
  · next hpos =>
    cases hutf : fromUtf8 (slice bytes (pos + 4) (pos + 4 + lengthAt bytes pos)) with
    | none => simp [hutf] at hread
    | some s =>
      rw [hutf] at hread
      have hkey := Except.ok.inj hread
      have hsize : (asBytes s).length = lengthAt bytes pos := by
        rw [asBytes_of_fromUtf8 hutf, length_slice _ _ _ hpos.2]
        omega
      rw [← hkey, Option.elim_some, hsize] at hlengths
      omega
  · next hempty =>
    have hkey := Except.ok.inj hread
    rw [← hkey] at hlengths hdrop
    -- the four bytes are those of zero
    have hzero : lengthAt bytes pos = 0 := by
      have hwritten := lengthAt_u32ToLe (bytes.take pos) [] 0
      have hbytes : bytes.take pos ++ (u32ToLe 0 ++ []) = bytes := by
        rw [List.append_nil, ← List.take_append_drop pos bytes, hdrop]
        simp [writeLastField, hle]
      rwa [hbytes, List.length_take, Nat.min_eq_left hle] at hwritten
    rw [Option.elim_none] at hlengths
    omega

theorem eq_toBytes_iff {bytes : Bytes} {h : HybridSignature}
    (hok : HybridSignature.fromBytes bytes = .ok h) :
    bytes = h.toBytes ↔ EndsWithLastField bytes := by
  obtain ⟨htake, hle, hread⟩ := fromBytes_eq_ok hok
  rw [toBytes_eq, ← htake]
  constructor
  · intro heq
    have hdrop := congrArg (List.drop (keyEnd bytes)) heq
    rw [List.drop_left' (by simp [hle])] at hdrop
    exact length_of_drop hle hread hdrop
  · intro hends
    rw [← drop_keyEnd hread hends, List.take_append_drop]

/-- **Encodings of an envelope.** What is written is read back, no access of the parser is out of
    range, and an accepted byte string is what would be written for its envelope exactly if it ends
    with a complete last field. -/
theorem envelope_encoding_iff (h : HybridSignature) (bytes : Bytes) :
    (h.Encodable → HybridSignature.fromBytes h.toBytes = .ok h) ∧
    HybridSignature.fromBytesChecked bytes = .ok (HybridSignature.fromBytes bytes) ∧
    (HybridSignature.fromBytes bytes = .ok h →
      (bytes = h.toBytes ↔ EndsWithLastField bytes)) :=
  ⟨fromBytes_toBytes, fromBytesChecked_eq bytes, eq_toBytes_iff⟩

/-- An envelope with all four fields. -/
def hybridEnvelope : HybridSignature := ⟨[1, 2, 3], [4, 5], "ed", some "ml"⟩

/-- Its encoding is read back, it ends with the ML-DSA key, and with a byte behind it the same
    envelope is read from other bytes. -/
theorem hybridEnvelope_encoding :
    HybridSignature.fromBytes hybridEnvelope.toBytes = .ok hybridEnvelope ∧
      hybridEnvelope.toBytes =
        [3, 0, 0, 0, 1, 2, 3, 2, 0, 0, 0, 4, 5, 2, 0, 0, 0, 101, 100, 2, 0, 0, 0, 109, 108] ∧
      EndsWithLastField hybridEnvelope.toBytes ∧
      HybridSignature.fromBytes (hybridEnvelope.toBytes ++ [0]) = .ok hybridEnvelope ∧
      hybridEnvelope.toBytes ++ [0] ≠ hybridEnvelope.toBytes := by
  have hencodable : hybridEnvelope.Encodable :=
    ⟨by decide +kernel, by decide +kernel, by decide +kernel, by decide +kernel⟩
  have hback := (envelope_encoding_iff hybridEnvelope []).1 hencodable
  have hlonger : HybridSignature.fromBytes (hybridEnvelope.toBytes ++ [0]) =
      .ok hybridEnvelope := by
    decide +kernel
  refine ⟨hback, by decide +kernel, ((envelope_encoding_iff _ _).2.2 hback).mp rfl, hlonger, ?_⟩
  intro heq
  exact absurd (((envelope_encoding_iff _ _).2.2 hlonger).mp heq) (by decide +kernel)

/-- An envelope with nothing in it. -/
def emptyEnvelope : HybridSignature := ⟨[], [], "", none⟩

/-- Without the last length, and with a byte behind it, the same envelope is read. -/
theorem emptyEnvelope_other_encodings :
    HybridSignature.fromBytes (List.replicate 12 0) = .ok emptyEnvelope ∧
      HybridSignature.fromBytes (List.replicate 17 0) = .ok emptyEnvelope ∧
      List.replicate 12 0 ≠ emptyEnvelope.toBytes ∧
      List.replicate 17 0 ≠ emptyEnvelope.toBytes := by
  decide +kernel

end Synvoid.Mesh
