import Synvoid.Dns.Tsig
import Synvoid.Dns.WellFormedRr

/-! # Signed messages are not verified

    `sign` and `append_tsig_to_response` write a signature that
    `parse_tsig_from_query` does not find and `verify` does not accept:
    * what is appended is the RDATA alone, without owner, type, class, TTL and
      RDLENGTH, and it starts with the text of the key name;
    * `sign` writes the fudge before the time and the time in eight bytes, where
      the parser reads a time of six bytes before the fudge;
    * `verify` is given the message with the signature and with the counter of
      additional records already raised, and covers the length of the other data
      only if it is not zero.

    The parser reads the message by the lengths it finds there, so it may come
    upon a record inside the MAC. Without such an accident (a zero byte in the
    MAC is needed for it) nothing that was signed is verified, and nothing that
    was appended is a record (`no_match_without_zero`).
-/

namespace Synvoid.Dns

open Synvoid.Framework

/-! ## Section 1: The round trip -/

def isNameChar (c : Char) : Bool := c.isAlphanum || c == '-' || c == '_'

/-- The text of a domain name, with or without the final dot. -/
def IsDomainName (s : Str) : Prop :=
  ∃ ls : List Str, ls ≠ [] ∧
    (∀ l ∈ ls, l ≠ [] ∧ l.length ≤ 63 ∧ ∀ c ∈ l, isNameChar c = true) ∧ s.length ≤ 254 ∧
    (s = List.intercalate ['.'] ls ∨ s = List.intercalate ['.'] ls ++ ['.'])

/-- An HMAC is as long as its hash. -/
def HmacLengths (hmac : Hmac) : Prop :=
  ∀ algorithm secret data, (hmac algorithm secret data).length = algorithm.minSecretLen

section property

variable (hmac : Hmac) (sha256 : Bytes → Bytes) (keys : TsigKeys) (keyName : Str)
  (message : Bytes) (clock : ClockReads)

/-- What is sent is verified: a fresh verifier with the same keys and clock
    accepts it with the fields that the parser finds behind the question. -/
def Verifies : Prop :=
  ∃ sent tsig,
    appendTsigToResponse hmac (some keys) clock.unixTimestampSecs message keyName =
      .ok (.ok sent) ∧
    parseTsigFromQuery sent message.length = .ok (some tsig) ∧
    (verify hmac sha256 keys (.new clock.verify) clock sent tsig).1 = .ok ()

/-- What is appended is one resource record, of type TSIG. -/
def AppendsTsigRecord : Prop :=
  ∃ sent rr,
    appendTsigToResponse hmac (some keys) clock.unixTimestampSecs message keyName =
      .ok (.ok sent) ∧
    readRr (sent.drop message.length) = some (rr, []) ∧ IsOwner rr.owner ∧ rr.rrType = 250

/-- Signing and verification match. -/
def SignAndVerifyMatch : Prop :=
  Verifies hmac sha256 keys keyName message clock ∧
    AppendsTsigRecord hmac keys keyName message clock

end property

/-! ## Section 2: What is sent -/

/-- What `sign` returns. -/
def signature (hmac : Hmac) (key : TsigKey) (keyName : Str) (message : Bytes) (now : UInt64) :
    Bytes :=
  utf8 keyName ++ ([0] ++ u16ToBe key.algorithm.toU16 ++ u16ToBe signFudge) ++
    (beBytes 8 now.toNat ++
      (u16ToBe (UInt16.ofNat (signedMac hmac key keyName message now 0).length) ++
        (signedMac hmac key keyName message now 0 ++ [0, 0, 0, 0])))

theorem sent_eq {hmac : Hmac} {keys : TsigKeys} {keyName : Str} {message sent : Bytes}
    {now : UInt64}
    (h : appendTsigToResponse hmac (some keys) now message keyName = .ok (.ok sent)) :
    ∃ key front, keys.get keyName = some key ∧ front.length = message.length ∧
      sent = front ++ signature hmac key keyName message now := by
  unfold appendTsigToResponse sign at h
  cases hkey : keys.get keyName with
  | none =>
    simp only [hkey] at h
    cases h
  | some key =>
    simp only [hkey] at h
    split at h
    · cases h
    · next hlong =>
      obtain ⟨arcount, -, h⟩ := bind_eq_ok h
      obtain ⟨newArcount, -, h⟩ := bind_eq_ok h
      refine ⟨key, message.take 10 ++ u16ToBe (UInt16.ofNat newArcount) ++ message.drop 12,
        rfl, ?_, ?_⟩
      · simp
        omega
      · rw [← Except.ok.inj (Except.ok.inj h)]
        simp [signature, u16ToBe]

/-- The bytes of a signature that starts at `m`, with a key name of `n` bytes and
    a MAC of `size` bytes, none of them zero. -/
structure SignatureAt (q : Bytes) (m n size : Nat) : Prop where
  length : q.length = m + n + 19 + size
  name : ∀ i, m ≤ i → i < m + n → byteAt q i ≠ 0
  zero : byteAt q (m + n) = 0
  algorithmHigh : byteAt q (m + n + 1) = 0
  algorithm : byteAt q (m + n + 2) ≠ 0 ∧ byteAt q (m + n + 2) ≠ 250
  fudge : byteAt q (m + n + 3) = 1 ∧ byteAt q (m + n + 4) = 44
  sizeHigh : byteAt q (m + n + 13) = 0
  sizeLow : (byteAt q (m + n + 14)).toNat = size
  mac : ∀ i, m + n + 15 ≤ i → i < m + n + 15 + size → byteAt q i ≠ 0
  sizes : size = 32 ∨ size = 48 ∨ size = 64

theorem signatureAt {hmac : Hmac} (hlengths : HmacLengths hmac) {key : TsigKey} {keyName : Str}
    (hname : 0 ∉ utf8 keyName) {message : Bytes} {now : UInt64}
    (hmac0 : 0 ∉ signedMac hmac key keyName message now 0) (front : Bytes) :
    SignatureAt (front ++ signature hmac key keyName message now) front.length
      (byteLen keyName) key.algorithm.minSecretLen := by
  generalize hm : signedMac hmac key keyName message now 0 = mac at hmac0
  have hsize : mac.length = key.algorithm.minSecretLen := by
    rw [← hm]
    exact hlengths _ _ _
  have hsizeBytes : u16ToBe (UInt16.ofNat mac.length) =
      [0, UInt8.ofNat key.algorithm.minSecretLen] := by
    rw [hsize]
    cases key.algorithm <;> decide
  obtain ⟨low, hlow, hlow0, hlow250⟩ : ∃ low : UInt8,
      [0] ++ u16ToBe key.algorithm.toU16 ++ u16ToBe signFudge = [0, 0, low, 1, 44] ∧
        low ≠ 0 ∧ low ≠ 250 := by
    cases key.algorithm <;> exact ⟨_, rfl, by decide, by decide⟩
  -- the fixed fields, the field of the size and the MAC, each behind what stands before it
  have hfixed : front ++ signature hmac key keyName message now =
      (front ++ utf8 keyName) ++ ([0, 0, low, 1, 44] ++ (beBytes 8 now.toNat ++
        ([0, UInt8.ofNat key.algorithm.minSecretLen] ++ (mac ++ [0, 0, 0, 0])))) := by
    rw [signature, hm, hsizeBytes, hlow]
    simp
  have hsizeField : front ++ signature hmac key keyName message now =
      (front ++ utf8 keyName ++ [0, 0, low, 1, 44] ++ beBytes 8 now.toNat) ++
        ([0, UInt8.ofNat key.algorithm.minSecretLen] ++ (mac ++ [0, 0, 0, 0])) := by
    rw [hfixed]
    simp
  have hmacField : front ++ signature hmac key keyName message now =
      (front ++ utf8 keyName ++ [0, 0, low, 1, 44] ++ beBytes 8 now.toNat ++
        [0, UInt8.ofNat key.algorithm.minSecretLen]) ++ (mac ++ [0, 0, 0, 0]) := by
    rw [hfixed]
    simp
  have hat : ∀ i, byteAt (front ++ signature hmac key keyName message now)
      (front.length + byteLen keyName + i) =
        byteAt ([0, 0, low, 1, 44] ++ (beBytes 8 now.toNat ++
          ([0, UInt8.ofNat key.algorithm.minSecretLen] ++ (mac ++ [0, 0, 0, 0])))) i := by
    intro i
    have hlength : (front ++ utf8 keyName).length = front.length + byteLen keyName := by simp
    rw [hfixed, ← hlength, byteAt_append_right]
  have hatSize : ∀ i, byteAt (front ++ signature hmac key keyName message now)
      (front.length + byteLen keyName + 13 + i) =
        byteAt ([0, UInt8.ofNat key.algorithm.minSecretLen] ++ (mac ++ [0, 0, 0, 0])) i := by
    intro i
    have hlength : (front ++ utf8 keyName ++ [0, 0, low, 1, 44] ++ beBytes 8 now.toNat).length =
        front.length + byteLen keyName + 13 := by simp [Nat.add_assoc]
    rw [hsizeField, ← hlength, byteAt_append_right]
  refine ⟨?_, ?_, hat 0, hat 1, ?_, ⟨hat 3, hat 4⟩, hatSize 0, ?_, ?_, ?_⟩
  · rw [hmacField]
    simp only [List.length_append, length_utf8, length_beBytes, hsize, List.length_cons,
      List.length_nil]
    omega
  · intro i hle hlt heq
    rw [signature, List.append_assoc] at heq
    apply hname
    rw [← heq]
    exact byteAt_append_mem hle (by simpa using hlt)
  · rw [hat 2]
    exact ⟨hlow0, hlow250⟩
  · rw [hatSize 1]
    cases key.algorithm <;> rfl
  · intro i hle hlt heq
    rw [hmacField] at heq
    have hlength : (front ++ utf8 keyName ++ [0, 0, low, 1, 44] ++ beBytes 8 now.toNat ++
        [0, UInt8.ofNat key.algorithm.minSecretLen]).length =
          front.length + byteLen keyName + 15 := by simp [Nat.add_assoc]
    apply hmac0
    rw [← heq]
    exact byteAt_append_mem (hlength ▸ hle) (hlength.symm ▸ hsize.symm ▸ hlt)
  · cases key.algorithm <;> decide

/-! ## Section 3: What the parser finds -/

/-- Where the fields of a parsed record stand, from its algorithm at `k` on. -/
structure FieldsAt (q : Bytes) (tsig : TsigParseResult) (k : Nat) : Prop where
  inside : k + 16 + tsig.mac.length ≤ q.length
  algorithm : tsig.algorithm = u16At q k
  macLen : (u16At q (k + 10)).toNat = tsig.mac.length
  tsigError : tsig.tsigError = u16At q (k + 12 + tsig.mac.length)

theorem le_of_readKeyName {q : Bytes} {fuel pos stop : Nat} {name keyName : Str}
    (h : readKeyName q fuel pos name = .ok (some (keyName, stop))) : pos ≤ stop := by
  induction fuel generalizing pos name with
  | zero =>
    obtain ⟨-, rfl⟩ := Prod.mk.inj (Option.some.inj (Except.ok.inj h))
    exact Nat.le_refl _
  | succ fuel ih =>
    unfold readKeyName at h
    split at h
    · obtain ⟨len, -, h⟩ := bind_eq_ok h
      split at h
      · obtain ⟨-, rfl⟩ := Prod.mk.inj (Option.some.inj (Except.ok.inj h))
        omega
      · split at h
        · cases h
        · obtain ⟨label, -, h⟩ := bind_eq_ok h
          have := ih h
          omega
    · obtain ⟨-, rfl⟩ := Prod.mk.inj (Option.some.inj (Except.ok.inj h))
      exact Nat.le_refl _

theorem fieldsAt_of_readTsigFields {q : Bytes} {keyName : Str} {keyStart pos : Nat}
    {tsig : TsigParseResult} (h : readTsigFields q keyName keyStart pos = .ok (some tsig)) :
    FieldsAt q tsig pos := by
  unfold readTsigFields at h
  split at h
  · cases h
  · obtain ⟨algorithm, halgorithm, h⟩ := bind_eq_ok h
    obtain ⟨time, -, h⟩ := bind_eq_ok h
    obtain ⟨fudge, -, h⟩ := bind_eq_ok h
    obtain ⟨macLen, hmacLen, h⟩ := bind_eq_ok h
    split at h
    · cases h
    · obtain ⟨mac, hmac, h⟩ := bind_eq_ok h
      obtain ⟨tsigError, htsigError, h⟩ := bind_eq_ok h
      obtain ⟨otherLen, hotherLen, h⟩ := bind_eq_ok h
      obtain rfl := Option.some.inj (Except.ok.inj h)
      obtain ⟨-, hle, hmac⟩ := range_eq_ok hmac
      have hlength : mac.length = macLen.toNat := by
        rw [hmac, length_slice _ _ _ hle]
        omega
      have hother := (readU16_eq_ok hotherLen).1
      refine ⟨?_, (readU16_eq_ok halgorithm).2, ?_, ?_⟩
      · simp only [hlength]
        omega
      · rw [← (readU16_eq_ok hmacLen).2, hlength]
      · rw [(readU16_eq_ok htsigError).2, hlength]

/-- **Run lemma of the parser.** A record is found behind the start. -/
theorem fieldsAt_of_findTsig {q : Bytes} {fuel pos : Nat} {tsig : TsigParseResult}
    (h : findTsig q fuel pos = .ok (some tsig)) : ∃ k, pos ≤ k ∧ FieldsAt q tsig k := by
  induction fuel generalizing pos with
  | zero => cases h
  | succ fuel ih =>
    unfold findTsig at h
    split at h
    · cases howner : skipOwner q pos with
      | none =>
        simp only [howner] at h
        cases h
      | some p =>
        have hle := le_of_skipOwner howner
        simp only [howner] at h
        obtain ⟨qtype, -, h⟩ := bind_eq_ok h
        split at h
        · obtain ⟨rdlen, -, h⟩ := bind_eq_ok h
          obtain ⟨k, hk, hfields⟩ := ih h
          exact ⟨k, by omega, hfields⟩
        · unfold readTsigRecord at h
          obtain ⟨key, hkey, h⟩ := bind_eq_ok h
          cases key with
          | none => cases h
          | some found =>
            obtain ⟨keyName, stop⟩ := found
            have hstop := le_of_readKeyName hkey
            exact ⟨stop, by omega, fieldsAt_of_readTsigFields h⟩
    · cases h

theorem fieldsAt_of_parse {q : Bytes} {qdEnd : Nat} {tsig : TsigParseResult}
    (h : parseTsigFromQuery q qdEnd = .ok (some tsig)) : ∃ k, qdEnd ≤ k ∧ FieldsAt q tsig k := by
  obtain ⟨least, -, h⟩ := bind_eq_ok h
  split at h
  · cases h
  · exact fieldsAt_of_findTsig h

/-! ## Section 4: No match -/

theorem byteAt_eq_zero_of_u16At_lt {q : Bytes} {i : Nat} (h : (u16At q i).toNat < 256) :
    byteAt q i = 0 := by
  rw [toNat_u16At] at h
  apply UInt8.toNat_inj.mp
  simp
  omega

/-- Fields that `verify` accepts do not stand in a signature without zero bytes
    in its MAC: the end of the fields would be the end of the signature, and
    their algorithm the fudge or a part of the MAC. -/
theorem not_accepted_in_signature {q : Bytes} {m n size k : Nat} (hsig : SignatureAt q m n size)
    {tsig : TsigParseResult} (hk : m ≤ k) (hfields : FieldsAt q tsig k)
    (hmacLen : tsig.mac.length = 32 ∨ tsig.mac.length = 48 ∨ tsig.mac.length = 64)
    (halgorithm : tsig.algorithm.toNat < 256) (hnoError : tsig.tsigError = 0) : False := by
  have hinside := hfields.inside
  rw [hsig.length] at hinside
  rw [hfields.algorithm] at halgorithm
  have hzero := byteAt_eq_zero_of_u16At_lt halgorithm
  have herror : byteAt q (k + 12 + tsig.mac.length) = 0 := by
    apply byteAt_eq_zero_of_u16At_lt
    rw [← hfields.tsigError, hnoError]
    decide
  have hsizes := hsig.sizes
  have hbehind : m + n ≤ k := by
    by_contra hin
    exact hsig.name k hk (by omega) hzero
  have hend : m + n + 15 + size ≤ k + 12 + tsig.mac.length := by
    by_contra hin
    exact hsig.mac _ (by omega) (by omega) herror
  by_cases hsame : tsig.mac.length = size
  · have hfudge := hsig.fudge.1
    rw [show m + n + 3 = k by omega, hzero] at hfudge
    exact absurd hfudge (by decide)
  · exact hsig.mac k (by omega) (by omega) hzero

/-- The fields of a record that takes all of the bytes. -/
theorem fields_of_readRr {bytes : Bytes} {rr : WireRr} (h : readRr bytes = some (rr, [])) :
    rr.rrType = u16At bytes rr.owner.length ∧
      bytes.length = rr.owner.length + 10 + (u16At bytes (rr.owner.length + 8)).toNat := by
  obtain ⟨⟨owner, rest⟩, hname, h⟩ := Option.bind_eq_some_iff.mp h
  have happend := append_of_readName hname
  simp only at h
  split at h
  · next t₁ t₂ c₁ c₂ ttl₁ ttl₂ ttl₃ ttl₄ l₁ l₂ rdata =>
    split at h
    · next hle =>
      obtain ⟨rfl, hdrop⟩ := Prod.mk.inj (Option.some.inj h)
      have hrdata := List.drop_eq_nil_iff.mp hdrop
      have htype : u16At bytes owner.length = u16FromBe t₁ t₂ := by
        rw [happend, u16At, ← Nat.add_zero owner.length, byteAt_append_right, Nat.add_zero,
          byteAt_append_right]
        rfl
      have hrdlength : u16At bytes (owner.length + 8) = u16FromBe l₁ l₂ := by
        rw [happend, u16At, Nat.add_assoc, byteAt_append_right, byteAt_append_right]
        rfl
      refine ⟨htype.symm, ?_⟩
      rw [hrdlength, happend]
      simp only [List.length_append, List.length_cons]
      omega
    · cases h
  · cases h

/-- No record of type TSIG takes all of such a signature: its type could only
    stand in the time, and its RDLENGTH would not fit. -/
theorem no_record_in_signature {q : Bytes} {n size : Nat} (hsig : SignatureAt q 0 n size)
    {rr : WireRr} (hread : readRr q = some (rr, [])) : rr.rrType ≠ 250 := by
  intro htype
  obtain ⟨hrrType, hlength⟩ := fields_of_readRr hread
  generalize rr.owner.length = t at hrrType hlength
  rw [hrrType] at htype
  have htypeNat : (byteAt q t).toNat * 256 + (byteAt q (t + 1)).toNat = 250 := by
    rw [← toNat_u16At, htype]
    rfl
  have hlow := (byteAt q (t + 1)).toNat_lt
  have hzero : byteAt q t = 0 := byteAt_eq_zero_of_u16At_lt (by rw [htype]; decide)
  have h250 : byteAt q (t + 1) = 250 := by
    apply UInt8.toNat_inj.mp
    rw [hzero] at htypeNat
    simpa using htypeNat
  have hsizes := hsig.sizes
  have hsigLength := hsig.length
  have hname : n ≤ t := by
    by_contra hin
    exact hsig.name t (Nat.zero_le t) (by omega) hzero
  have hmac : t < n + 15 := by
    by_contra hin
    exact hsig.mac t (by omega) (by omega) hzero
  have hrdlength : byteAt q (t + 8) = 0 := byteAt_eq_zero_of_u16At_lt (by omega)
  rw [toNat_u16At, hrdlength] at hlength
  -- from the third byte of the time on, the high byte of RDLENGTH would be in the MAC
  have hearly : t < n + 7 := by
    by_contra hin
    exact hsig.mac (t + 8) (by omega) (by omega) hrdlength
  obtain rfl | rfl | rfl | rfl | rfl | rfl | rfl :
      t = n ∨ t = n + 1 ∨ t = n + 2 ∨ t = n + 3 ∨ t = n + 4 ∨ t = n + 5 ∨ t = n + 6 := by omega
  · have := hsig.algorithmHigh
    rw [Nat.zero_add, h250] at this
    exact absurd this (by decide)
  · have := hsig.algorithm.2
    rw [Nat.zero_add] at this
    exact this h250
  · have := hsig.algorithm.1
    rw [Nat.zero_add] at this
    exact this hzero
  · have := hsig.fudge.1
    rw [Nat.zero_add, hzero] at this
    exact absurd this (by decide)
  · have := hsig.fudge.2
    rw [Nat.zero_add, hzero] at this
    exact absurd this (by decide)
  · have := hsig.sizeLow
    rw [Nat.zero_add] at this
    rw [show n + 5 + 8 + 1 = n + 14 from rfl, this] at hlength
    simp at hlength
    omega
  · have := hsig.sizeLow
    rw [Nat.zero_add, show n + 14 = n + 6 + 8 from rfl, hrdlength] at this
    simp at this
    omega

theorem mem_intercalate_dot {ls : List Str} {c : Char} (h : c ∈ List.intercalate ['.'] ls) :
    c = '.' ∨ ∃ l ∈ ls, c ∈ l := by
  obtain ⟨part, hpart, hc⟩ := List.mem_flatten.mp h
  clear h
  induction ls with
  | nil => simp at hpart
  | cons l ls ih =>
    cases ls with
    | nil =>
      simp only [List.intersperse_singleton, List.mem_singleton] at hpart
      subst hpart
      exact Or.inr ⟨part, by simp, hc⟩
    | cons l' ls =>
      simp only [List.intersperse_cons_cons, List.mem_cons] at hpart
      rcases hpart with rfl | rfl | hpart
      · exact Or.inr ⟨part, by simp, hc⟩
      · exact Or.inl (by simpa using hc)
      · rcases ih (by simpa using hpart) with hdot | ⟨l'', hl'', hc'⟩
        · exact Or.inl hdot
        · exact Or.inr ⟨l'', List.mem_cons_of_mem l hl'', hc'⟩

theorem zero_notMem_of_isDomainName {s : Str} (h : IsDomainName s) : 0 ∉ utf8 s := by
  obtain ⟨ls, -, hls, -, hs⟩ := h
  have hchars : ∀ c ∈ s, c = '.' ∨ isNameChar c = true := by
    intro c hc
    have hmem : c = '.' ∨ ∃ l ∈ ls, c ∈ l := by
      rcases hs with rfl | rfl
      · exact mem_intercalate_dot hc
      · rcases List.mem_append.mp hc with hc | hc
        · exact mem_intercalate_dot hc
        · exact Or.inl (by simpa using hc)
    rcases hmem with hdot | ⟨l, hl, hcl⟩
    · exact Or.inl hdot
    · exact Or.inr ((hls l hl).2.2 c hcl)
  refine zero_notMem_utf8 fun c hc hzero => ?_
  have hnul : c = Char.ofNat 0 := by
    rw [← Char.ofNat_toNat c, hzero]
  rcases hchars c hc with hdot | hname
  · rw [hdot] at hnul
    exact absurd hnul (by decide)
  · rw [hnul] at hname
    exact absurd hname (by decide)

section results

variable {hmac : Hmac} {sha256 : Bytes → Bytes} {keys : TsigKeys} {key : TsigKey}
  {message : Bytes} {clock : ClockReads}

/-- A MAC that `verify` accepts has the length of its algorithm's hash. -/
theorem fields_of_verify {cache : ReplayCache} {sent : Bytes} {tsig : TsigParseResult}
    (hlengths : HmacLengths hmac)
    (h : (verify hmac sha256 keys cache clock sent tsig).1 = .ok ()) :
    (tsig.mac.length = 32 ∨ tsig.mac.length = 48 ∨ tsig.mac.length = 64) ∧
      tsig.algorithm.toNat < 256 ∧ tsig.tsigError = 0 := by
  have hauth : authenticate hmac keys clock.unixTimestampSecs sent tsig = .ok () := by
    unfold verify at h
    cases hauth : authenticate hmac keys clock.unixTimestampSecs sent tsig with
    | error e =>
      rw [hauth] at h
      cases h
    | ok u => rfl
  obtain ⟨herror, -, key, -, halgorithm, hmac'⟩ := authenticate_eq_ok_iff.mp hauth
  rw [← halgorithm, ← hmac', expectedMac, hlengths]
  exact ⟨by cases key.algorithm <;> decide, by cases key.algorithm <;> decide, herror⟩

/-- Without a zero byte in the MAC the signature is neither verified nor a
    record. -/
theorem no_match_without_zero (hlengths : HmacLengths hmac) (hkey : keys.get key.name = some key)
    (hname : IsDomainName key.name)
    (hmac0 : 0 ∉ signedMac hmac key key.name message clock.unixTimestampSecs 0) :
    ¬ Verifies hmac sha256 keys key.name message clock ∧
      ¬ AppendsTsigRecord hmac keys key.name message clock := by
  have hname0 := zero_notMem_of_isDomainName hname
  constructor
  · rintro ⟨sent, tsig, hsent, hparse, hverify⟩
    obtain ⟨key', front, hkey', hfront, rfl⟩ := sent_eq hsent
    obtain rfl := Option.some.inj (hkey.symm.trans hkey')
    obtain ⟨k, hk, hfields⟩ := fieldsAt_of_parse hparse
    obtain ⟨hmacLen, halgorithm, herror⟩ := fields_of_verify hlengths hverify
    exact not_accepted_in_signature (signatureAt hlengths hname0 hmac0 front) (hfront ▸ hk) hfields
      hmacLen halgorithm herror
  · rintro ⟨sent, rr, hsent, hread, -, htype⟩
    obtain ⟨key', front, hkey', hfront, rfl⟩ := sent_eq hsent
    obtain rfl := Option.some.inj (hkey.symm.trans hkey')
    rw [← hfront, List.drop_left] at hread
    have hsig := signatureAt hlengths hname0 hmac0 []
    rw [List.nil_append] at hsig
    exact no_record_in_signature hsig hread htype

end results

/-- An HMAC without zero bytes. -/
def onesHmac : Hmac := fun algorithm _ _ => List.replicate algorithm.minSecretLen 255

theorem onesHmac_lengths : HmacLengths onesHmac := fun _ _ _ => List.length_replicate

theorem zero_notMem_onesHmac (algorithm : TsigAlgorithmRuntime) (secret data : Bytes) :
    0 ∉ onesHmac algorithm secret data := by
  intro hmem
  exact absurd (List.mem_replicate.mp hmem).2 (by decide)

/-- **Signing and verification never match.** Whatever the configured key, the
    message and the clock, they do not match for every HMAC; and for a given HMAC
    they match only if the MAC itself has a zero byte, inside which the parser
    could find a record by accident. -/
theorem sign_and_verify_never_match (sha256 : Bytes → Bytes) {keys : TsigKeys} {key : TsigKey}
    (hkey : keys.get key.name = some key) (hname : IsDomainName key.name) (message : Bytes)
    (clock : ClockReads) :
    (¬ ∀ hmac, HmacLengths hmac →
      SignAndVerifyMatch hmac sha256 keys key.name message clock) ∧
    ∀ hmac, HmacLengths hmac →
      Verifies hmac sha256 keys key.name message clock ∨
        AppendsTsigRecord hmac keys key.name message clock →
      0 ∈ signedMac hmac key key.name message clock.unixTimestampSecs 0 := by
  constructor
  · intro hmatch
    exact (no_match_without_zero onesHmac_lengths hkey hname (zero_notMem_onesHmac _ _ _)).1
      (hmatch onesHmac onesHmac_lengths).1
  · intro hmac hlengths hone
    by_contra hmac0
    obtain ⟨hverify, hrecord⟩ := no_match_without_zero hlengths hkey hname hmac0
    rcases hone with hone | hone
    · exact hverify hone
    · exact hrecord hone

/-- A key as the configuration names it. -/
def rootedKey : TsigKey where
  name := "transfer-key.".toList
  secret := List.replicate 32 7
  algorithm := .hmacSha256
  long := minSecretLen_le_sevens

def rootedKeys : TsigKeys := KeyedTable.empty.insert rootedKey

theorem get_rootedKeys : rootedKeys.get rootedKey.name = some rootedKey :=
  KeyedTable.get_insert_self KeyedTable.empty rootedKey

theorem isDomainName_rootedKey : IsDomainName rootedKey.name := by
  have hchars : ("transfer-key".toList).all isNameChar = true := by decide
  exact ⟨["transfer-key".toList], by decide,
    List.forall_mem_singleton.mpr ⟨by decide, by decide, List.all_eq_true.mp hchars⟩,
    by decide, by decide⟩

/-- A response with one question, for the address of `a.`. -/
def questionOnly : Bytes :=
  [0x12, 0x34, 0x84, 0, 0, 1, 0, 0, 0, 0, 0, 0, 1, 0x61, 0, 0, 1, 0, 1]

/-- The clock at second 1700000000. -/
def clockAtSigning : ClockReads where
  verify := 1700000000 * nanosPerSec
  elapsed := 1700000000 * nanosPerSec
  cutoff := 1700000000 * nanosPerSec
  cleaned := 1700000000 * nanosPerSec
  inserted := 1700000000 * nanosPerSec
  verify_le := Nat.le_refl _
  elapsed_le := Nat.le_refl _
  cutoff_le := Nat.le_refl _
  cleaned_le := Nat.le_refl _
  seconds_lt := by rw [Nat.mul_div_cancel _ (by decide)]; decide

theorem rootedKey_never_matches :
    ¬ ∀ hmac, HmacLengths hmac →
      SignAndVerifyMatch hmac (fun data => data) rootedKeys rootedKey.name questionOnly
        clockAtSigning :=
  (sign_and_verify_never_match (fun data => data) get_rootedKeys isDomainName_rootedKey
    questionOnly clockAtSigning).1

/-- A signed response with one question is not verified, and what was appended is
    not a record. -/
theorem signed_question_not_verified :
    ¬ Verifies onesHmac (fun data => data) rootedKeys rootedKey.name questionOnly clockAtSigning ∧
      ¬ AppendsTsigRecord onesHmac rootedKeys rootedKey.name questionOnly clockAtSigning :=
  no_match_without_zero onesHmac_lengths get_rootedKeys isDomainName_rootedKey
    (zero_notMem_onesHmac _ _ _)

end Synvoid.Dns
