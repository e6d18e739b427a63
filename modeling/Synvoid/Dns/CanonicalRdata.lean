import Synvoid.Dns.RdataLength

/-! # Served RDATA and signed RDATA

    A signature covers `canonical_rdata` (`synvoid-dns/src/dnssec_validation.rs`),
    the answer carries the RDATA of `encode_rr`: two encoders of one value.
    A validator only accepts the answer if they agree.

    They agree for addresses and service records, and for names that have a
    label (`Agrees`). They part for text records whose first byte reads as
    the length of a shorter string, for SOA names with an over-long label,
    and for every type that `canonical_rdata` does not know: there the text of
    the value is signed and its encoding is served.
-/

namespace Synvoid.Dns

open Synvoid.Framework

/-! ## Section 1: The signed RDATA -/

def canonicalName (lib : Externals) (name : Str) : Bytes :=
  let name := trimEndMatches '.' (lib.toLowercase name)
  if name = [] then [0] else encodeLabels (labels name) ++ [0]

def canonicalSoa (lib : Externals) (value : Str) : Bytes :=
  match splitWhitespace value with
  | mname :: rname :: serial :: refresh :: retry :: expire :: minimum :: _ =>
      canonicalName lib mname ++ canonicalName lib rname ++
        [serial, refresh, retry, expire, minimum].flatMap fun part =>
          u32ToBe ((parseU32 part).getD 0)
  | _ => []

/-- The loop over a text record: takes strings behind length bytes out of the
    text; where that fails, adds the whole text and stops. -/
def canonicalTxtLoop (txt : Bytes) : Nat → Bytes → Bytes
  | 0, _ => []
  | _ + 1, [] => []
  | fuel + 1, len :: rest =>
      if len = 0 ∨ len.toNat > rest.length then UInt8.ofNat txt.length :: txt
      else len :: rest.take len.toNat ++ canonicalTxtLoop txt fuel (rest.drop len.toNat)

def canonicalTxt (txt : Bytes) : Bytes :=
  let rdata := canonicalTxtLoop txt txt.length txt
  if rdata = [] then UInt8.ofNat txt.length :: txt else rdata

def canonicalRdata (lib : Externals) (recordType : UInt16) (value : Str)
    (priority weight port : Option UInt32) (_ttl : UInt32) : Bytes :=
  if recordType = 1 then (parseIpv4 value).getD []
  else if recordType = 28 then (parseIpv6 value).getD []
  else if recordType = 2 then canonicalName lib value
  else if recordType = 5 then canonicalName lib value
  else if recordType = 6 then canonicalSoa lib value
  else if recordType = 15 then
    u16ToBe (priority.getD 10).toUInt16 ++ canonicalName lib value
  else if recordType = 16 then canonicalTxt (utf8 value)
  else if recordType = 33 then
    u32ToBe (priority.getD 0) ++ u32ToBe (weight.getD 0) ++ u32ToBe (port.getD 0) ++
      canonicalName lib value
  else if recordType = 64 ∨ recordType = 65 then
    match parseSvcbValue lib value with
    | .ok svcbData => svcbData
    | .error _ => utf8 value
  else utf8 value

/-- The bytes `create_signed_rrsig` signs as the record's RDATA. -/
def signedRdata (lib : Externals) (record : DnsZoneRecord) : Bytes :=
  canonicalRdata lib record.recordType.code record.value record.priority none none record.ttl

/-- The RDATA in the bytes of an encoded record: what follows the owner name
    and the ten bytes of type, class, TTL and length. -/
def servedRdata (lib : Externals) (record : DnsZoneRecord)
    (qnameCompressed : Option (Str × UInt16)) (encoded : EncodedRecord) : Bytes :=
  encoded.bytes.drop ((encodeOwner lib record qnameCompressed).length + 10)

/-! ## Section 2: When they agree -/

/-- The types that are signed. -/
def signedTypes : List RecordType :=
  [.a, .aaaa, .ns, .cname, .soa, .mx, .txt, .ptr, .caa, .tlsa, .sshfp, .ds, .dnskey, .svcb, .https]

/-- The domain names in the value are in lower case. -/
def LowerNames (lib : Externals) (record : DnsZoneRecord) : Prop :=
  match record.recordType with
  | .ns | .cname | .mx | .ptr => lib.toLowercase record.value = record.value
  | .soa => ∀ name ∈ (splitWhitespace record.value).take 2, lib.toLowercase name = name
  | _ => True

/-- A name of an SOA record that both encoders write alike. -/
def SoaNameAgrees (name : Str) : Prop :=
  name ≠ "@".toList ∧ ∀ label ∈ labels name, byteLen label ≤ 63

/-- A text that both encoders write alike: it is one string, and does not
    begin with the length of a shorter one. -/
def TxtAgrees (value : Str) : Prop :=
  value = [] ∨ byteLen value ≤ 255 ∧
    (byteAt (utf8 value) 0 = 0 ∨ byteLen value ≤ (byteAt (utf8 value) 0).toNat)

/-- The records whose served RDATA is the signed RDATA. -/
def Agrees (record : DnsZoneRecord) : Prop :=
  match record.recordType with
  | .a | .aaaa | .svcb | .https => True
  | .ns | .cname | .mx => labels record.value ≠ []
  | .soa => ∀ name ∈ (splitWhitespace record.value).take 2, SoaNameAgrees name
  | .txt => TxtAgrees record.value
  | .ds => record.value = []
  | _ => False

/-! ## Section 3: Names -/

theorem canonicalName_eq {lib : Externals} {name : Str} (h : lib.toLowercase name = name) :
    canonicalName lib name = encodeLabels (labels name) ++ [0] := by
  unfold canonicalName
  -- all trailing dots are trimmed, so an empty rest has no labels
  simp only [h]
  split
  · next htrim =>
    rw [← labels_trimEndMatches, htrim]
    rfl
  · rw [labels_trimEndMatches]

theorem encodeLabels_nameParts_eq_iff (value : Str) :
    encodeLabels (nameParts value) ++ [0] = encodeLabels (labels value) ++ [0] ↔
      labels value ≠ [] := by
  unfold nameParts
  by_cases h : labels value = []
  · simp [h, encodeLabel]
  · simp [h]

/-- The labels `encode_name` keeps. -/
def keptLabels (name : Str) : List Str :=
  if name = "@".toList then [] else (labels name).filter fun label => byteLen label ≤ 63

theorem encodeName_eq (name : Str) : encodeName name = encodeLabels (keptLabels name) ++ [0] := by
  have hfilter : ∀ s : Str, (s.splitOn '.').filter (fun label => label ≠ [] ∧ byteLen label ≤ 63) =
      (labels s).filter fun label => byteLen label ≤ 63 := by
    intro s
    -- `encode_name` filters once where `labels` and the limit filter in turn
    rw [labels, List.filter_filter]
    congr 1
    funext label
    simp [Bool.and_comm]
  unfold encodeName keptLabels
  by_cases hroot : name = [] ∨ name = ".".toList
  · rw [if_pos hroot]
    rcases hroot with rfl | rfl <;> rfl
  · rw [if_neg hroot]
    by_cases hat : name = "@".toList
    · simp [hat]
    · simp only [hat, if_false, hfilter, labels_trimEndMatches]

/-- Dropping labels makes the encoding shorter. -/
theorem length_encodeLabels_filter (ls : List Str) (p : Str → Bool) :
    (encodeLabels (ls.filter p)).length ≤ (encodeLabels ls).length ∧
    ((encodeLabels (ls.filter p)).length = (encodeLabels ls).length ↔ ∀ l ∈ ls, p l = true) := by
  induction ls with
  | nil => simp
  | cons l ls ih =>
    obtain ⟨hle, hiff⟩ := ih
    -- a label that is dropped takes at least its length byte with it
    by_cases hl : p l = true
    · simp only [List.filter_cons, hl, if_true, encodeLabels_cons, List.length_append]
      refine ⟨by omega, ?_⟩
      simp only [Nat.add_left_cancel_iff, hiff, List.mem_cons, forall_eq_or_imp, hl, true_and]
    · simp only [List.filter_cons, hl, Bool.false_eq_true, if_false, encodeLabels_cons,
        List.length_append, length_encodeLabel]
      refine ⟨by omega, ⟨fun h => by omega, fun h => absurd (h l (by simp)) hl⟩⟩

theorem length_encodeName_le {lib : Externals} {name : Str} (h : lib.toLowercase name = name) :
    (encodeName name).length ≤ (canonicalName lib name).length ∧
    ((encodeName name).length = (canonicalName lib name).length ↔ SoaNameAgrees name) := by
  rw [encodeName_eq, canonicalName_eq h, List.length_append, List.length_append]
  unfold keptLabels SoaNameAgrees
  by_cases hat : name = "@".toList
  · rw [if_pos hat, hat]
    exact ⟨by decide, ⟨fun h => absurd h (by decide), fun h => absurd rfl h.1⟩⟩
  · rw [if_neg hat]
    obtain ⟨hle, hiff⟩ := length_encodeLabels_filter (labels name) fun l => byteLen l ≤ 63
    refine ⟨by omega, ?_⟩
    rw [Nat.add_right_cancel_iff, hiff]
    simp only [decide_eq_true_eq]
    exact ⟨fun hall => ⟨hat, hall⟩, fun h => h.2⟩

theorem encodeName_eq_canonicalName {lib : Externals} {name : Str}
    (h : lib.toLowercase name = name) (hagrees : SoaNameAgrees name) :
    encodeName name = canonicalName lib name := by
  rw [encodeName_eq, canonicalName_eq h, keptLabels, if_neg hagrees.1]
  rw [List.filter_eq_self.mpr fun l hl => by simpa using hagrees.2 l hl]

/-! ## Section 4: A name is never its own text -/

theorem replicate_suffix_of_append {α : Type} {m : Nat} {x y : α} {l r : List α}
    (h : List.replicate m x <:+ l ++ y :: r) (hne : y ≠ x) : List.replicate m x <:+ r := by
  -- if the zeros reached back to `y`, one of them would be `y`
  rcases List.suffix_or_suffix_of_suffix h (List.suffix_append l (y :: r)) with hsuf | hsuf
  · rcases List.suffix_cons_iff.mp hsuf with heq | hr
    · have hy : y ∈ List.replicate m x := heq ▸ List.mem_cons_self
      exact absurd (List.eq_of_mem_replicate hy) hne
    · exact hr
  · have hy : y ∈ List.replicate m x := hsuf.mem List.mem_cons_self
    exact absurd (List.eq_of_mem_replicate hy) hne

/-- The wire format ends in one more zero byte than the text. -/
theorem replicate_suffix_encodeLabels (value : Str) (m : Nat)
    (h : List.replicate m 0 <:+ utf8 value) :
    List.replicate (m + 1) 0 <:+ encodeLabels (nameParts value) ++ [0] := by
  rw [List.replicate_succ']
  rcases Nat.eq_zero_or_pos m with rfl | hm
  · exact List.suffix_append _ _
  -- the zeros are in the last part, which is then a label
  obtain ⟨pre, last, hlabels, hlast⟩ : ∃ (pre : List Str) (last : Str),
      labels value = pre ++ (if last = [] then [] else [last]) ∧
        List.replicate m 0 <:+ utf8 last := by
    rcases exists_last_part value with hdot | ⟨a, b, rfl, hb⟩
    · exact ⟨[], value, by rw [labels_of_no_dot hdot]; rfl, h⟩
    · refine ⟨labels a, b, by rw [labels_append_dot, labels_of_no_dot hb], ?_⟩
      rw [utf8_append, utf8_cons] at h
      exact replicate_suffix_of_append (y := 46) h (by decide)
  have hne : last ≠ [] := by
    rintro rfl
    have := hlast.length_le
    simp at this
    omega
  rw [if_neg hne] at hlabels
  have hparts : nameParts value = pre ++ [last] := by
    rw [nameParts, if_neg (by rw [hlabels]; simp), hlabels]
  rw [hparts]
  simp only [encodeLabels_append, encodeLabels_cons, encodeLabels_nil, List.append_nil,
    encodeLabel]
  obtain ⟨t, ht⟩ := hlast
  exact ⟨encodeLabels pre ++ UInt8.ofNat (byteLen last) :: t, by simp [← ht]⟩

/-- **A name on the wire is never its text.** Otherwise it would end in zeros
    without end. -/
theorem encodeLabels_nameParts_ne_utf8 (value : Str) :
    encodeLabels (nameParts value) ++ [0] ≠ utf8 value := by
  intro heq
  have hall : ∀ m, List.replicate m 0 <:+ utf8 value := by
    intro m
    induction m with
    | zero => exact List.nil_suffix
    | succ m ih => exact heq ▸ replicate_suffix_encodeLabels value m ih
  have := (hall ((utf8 value).length + 1)).length_le
  rw [List.length_replicate] at this
  omega

/-! ## Section 5: Text records -/

theorem txtChunks_of_short {txt : Bytes} (hne : txt ≠ []) (hshort : txt.length ≤ 255) :
    txtChunks txt.length txt = UInt8.ofNat txt.length :: txt := by
  have hpos : 0 < txt.length := List.length_pos_iff.mpr hne
  obtain ⟨n, hn⟩ : ∃ n, txt.length = n + 1 := ⟨txt.length - 1, by omega⟩
  have hrest : ∀ fuel, txtChunks fuel [] = [] := by
    intro fuel
    cases fuel <;> rfl
  conv_lhs => rw [hn]
  unfold txtChunks
  rw [if_neg hne, List.take_of_length_le hshort, List.drop_of_length_le hshort, hrest,
    List.append_nil]

/-- The first byte of the chunks is the length of the first one. -/
theorem head_txtChunks {txt : Bytes} (hne : txt ≠ []) :
    (txtChunks txt.length txt).head? = some (UInt8.ofNat (min 255 txt.length)) := by
  have hpos : 0 < txt.length := List.length_pos_iff.mpr hne
  obtain ⟨n, hn⟩ : ∃ n, txt.length = n + 1 := ⟨txt.length - 1, by omega⟩
  conv_lhs => rw [hn]
  unfold txtChunks
  rw [if_neg hne]
  simp

/-- What is signed for a text: the whole text as one string, or something
    that begins with the text's first byte. -/
theorem canonicalTxt_cases (len : UInt8) (rest : Bytes) :
    (len = 0 ∨ len.toNat > rest.length) ∧
      canonicalTxt (len :: rest) = UInt8.ofNat (rest.length + 1) :: len :: rest ∨
    ¬ (len = 0 ∨ len.toNat > rest.length) ∧ (canonicalTxt (len :: rest)).head? = some len := by
  unfold canonicalTxt
  simp only [List.length_cons, canonicalTxtLoop]
  by_cases hwhole : len = 0 ∨ len.toNat > rest.length
  · exact Or.inl ⟨hwhole, by simp [hwhole]⟩
  · exact Or.inr ⟨hwhole, by simp [hwhole]⟩

theorem txtChunks_eq_canonicalTxt_iff {value : Str} (hne : value ≠ []) :
    txtChunks (utf8 value).length (utf8 value) = canonicalTxt (utf8 value) ↔ TxtAgrees value := by
  have hpos : byteLen value ≠ 0 := fun h => hne (byteLen_eq_zero.mp h)
  obtain ⟨len, rest, htxt⟩ : ∃ len rest, utf8 value = len :: rest := by
    cases hu : utf8 value with
    | nil => exact absurd (by rw [byteLen, hu]; rfl) hpos
    | cons len rest => exact ⟨len, rest, rfl⟩
  have hlen : byteLen value = rest.length + 1 := by rw [byteLen, htxt]; rfl
  have h255 := utf8_head_ne_255 htxt
  have hfirst : byteAt (utf8 value) 0 = len := by rw [htxt]; rfl
  have hagrees : TxtAgrees value ↔ rest.length + 1 ≤ 255 ∧ (len = 0 ∨ len.toNat > rest.length) := by
    unfold TxtAgrees
    rw [hfirst, hlen]
    exact ⟨fun h => h.resolve_left hne, Or.inr⟩
  rw [hagrees]
  have hchunks := length_txtChunks (utf8 value).length (utf8 value) (Nat.le_refl _)
  have hhead := head_txtChunks (show utf8 value ≠ [] by rw [htxt]; simp)
  -- signed as a whole, or by the length the first byte seems to give
  rcases canonicalTxt_cases len rest with ⟨hwhole, hcanon⟩ | ⟨hpart, hcanon⟩
  · constructor
    · intro heq
      refine ⟨?_, hwhole⟩
      -- more than one chunk is more than one length byte
      rw [heq, htxt, hcanon] at hchunks
      simp only [List.length_cons] at hchunks
      omega
    · rintro ⟨hshort, -⟩
      rw [htxt, hcanon, txtChunks_of_short (by simp) (by simpa using hshort)]
      rfl
  · constructor
    · intro heq
      rw [heq, htxt, hcanon] at hhead
      -- the first byte served is the length of the first chunk, at least all of a short text;
      -- for a long one it is 255, which no UTF-8 text begins with
      have hbyte := congrArg UInt8.toNat (Option.some.inj hhead)
      rw [UInt8.toNat_ofNat', List.length_cons] at hbyte
      have hne255 : len.toNat ≠ 255 := fun h => h255 (UInt8.toNat_inj.mp h)
      exact absurd (Or.inr (by omega)) hpart
    · rintro ⟨-, hwhole⟩
      exact absurd hwhole hpart

/-! ## Section 6: Served and signed -/

theorem servedRdata_eq {lib : Externals} {record : DnsZoneRecord}
    {qnameCompressed : Option (Str × UInt16)} {encoded : EncodedRecord}
    (h : encodeRr lib record qnameCompressed = .ok encoded) :
    encodeRdata lib record = .ok (servedRdata lib record qnameCompressed encoded) := by
  obtain ⟨rdata, hrdata, h⟩ := bind_eq_ok h
  obtain rfl := Except.ok.inj h
  rw [hrdata, servedRdata]
  simp only [List.append_assoc]
  rw [← List.drop_drop, List.drop_left]
  rfl

/-- CAA: a flags field and a blank are dropped, or two bytes are added. -/
theorem rdataLen_caa_ne {lib : Externals} {record : DnsZoneRecord} {rdata : Bytes}
    (hty : record.recordType = .caa) (h : encodeRdata lib record = .ok rdata) :
    rdataLen lib record ≠ byteLen record.value := by
  have hblank : ' '.utf8Size = 1 := by decide
  unfold encodeRdata at h
  unfold rdataLen
  simp only [hty] at h ⊢
  split at h
  · next flags tag value hparts =>
    obtain ⟨_, hflags, -⟩ := orError_bind_eq_ok h
    have hne : byteLen flags ≠ 0 := fun h0 => parseU8_ne_nil hflags (byteLen_eq_zero.mp h0)
    -- the fields and the blanks between them are all of the value
    have hjoin := intercalate_splitn ' ' 2 record.value
    rw [hparts] at hjoin ⊢
    have hlen := congrArg byteLen hjoin
    have htrim := byteLen_trimMatches_le '"' value
    simp [List.intercalate_cons_cons, byteLen_cons] at hlen
    simp only [caaLen]
    omega
  · next hparts =>
    rw [caaLen_of_not_three hparts]
    omega

/-- TLSA: two fields and three blanks are dropped, the certificate is halved. -/
theorem rdataLen_tlsa_ne {lib : Externals} {record : DnsZoneRecord} {rdata : Bytes}
    (hty : record.recordType = .tlsa) (h : encodeRdata lib record = .ok rdata) :
    rdataLen lib record ≠ byteLen record.value := by
  have hblank : ' '.utf8Size = 1 := by decide
  unfold encodeRdata at h
  unfold rdataLen
  simp only [hty] at h ⊢
  split at h
  · next usage selector matchingType certData hparts =>
    obtain ⟨_, husage, h⟩ := orError_bind_eq_ok h
    obtain ⟨_, hselector, h⟩ := orError_bind_eq_ok h
    obtain ⟨_, hmatching, -⟩ := orError_bind_eq_ok h
    have hne₁ : byteLen usage ≠ 0 := fun h0 => parseU8_ne_nil husage (byteLen_eq_zero.mp h0)
    have hne₂ : byteLen selector ≠ 0 := fun h0 => parseU8_ne_nil hselector (byteLen_eq_zero.mp h0)
    have hne₃ : byteLen matchingType ≠ 0 :=
      fun h0 => parseU8_ne_nil hmatching (byteLen_eq_zero.mp h0)
    have hjoin := intercalate_splitn ' ' 3 record.value
    rw [hparts] at hjoin ⊢
    have hlen := congrArg byteLen hjoin
    simp [List.intercalate_cons_cons, byteLen_cons] at hlen
    simp only [tlsaLen]
    omega
  · cases h

/-- SSHFP: the blank between two fields is dropped, the fingerprint is halved. -/
theorem rdataLen_sshfp_ne {lib : Externals} {record : DnsZoneRecord} {rdata : Bytes}
    (hty : record.recordType = .sshfp) (h : encodeRdata lib record = .ok rdata) :
    rdataLen lib record ≠ byteLen record.value := by
  unfold encodeRdata at h
  unfold rdataLen
  simp only [hty] at h ⊢
  unfold parseSshfpValue at h
  split at h
  · next algorithm fingerprintType rest hparts =>
    -- the white space between the fields may be longer than a byte, so only a bound is known
    have hlen := byteLen_splitWhitespace record.value
    have hne₁ : algorithm ≠ [] :=
      ne_nil_of_mem_splitWhitespace (s := record.value) (by rw [hparts]; simp)
    have hne₂ : fingerprintType ≠ [] :=
      ne_nil_of_mem_splitWhitespace (s := record.value) (by rw [hparts]; simp)
    have hpos₁ : byteLen algorithm ≠ 0 := fun h0 => hne₁ (byteLen_eq_zero.mp h0)
    have hpos₂ : byteLen fingerprintType ≠ 0 := fun h0 => hne₂ (byteLen_eq_zero.mp h0)
    have hfp := byteLen_le_of_sublist (List.filter_sublist
      (l := rest.headD []) (p := fun c => c ≠ ':' ∧ c ≠ ' '))
    rw [hparts] at hlen ⊢
    simp only [sshfpLen]
    cases rest with
    | nil =>
      simp only [List.headD_nil, byteLen_nil] at hfp ⊢
      simp at hlen
      omega
    | cons fp rest =>
      simp only [List.headD_cons] at hfp ⊢
      simp at hlen
      omega
  · cases h

/-- **Text for types it does not know.** Where `canonical_rdata` takes the
    text of the value, the encoding served has another length; only an empty
    DS value has nothing to differ in. -/
theorem rdataLen_eq_byteLen_iff {lib : Externals} {record : DnsZoneRecord} {rdata : Bytes}
    (hhex : lib.HexPairs) (hty : record.recordType ∈ [.caa, .tlsa, .sshfp, .ds, .dnskey])
    (h : encodeRdata lib record = .ok rdata) :
    rdataLen lib record = byteLen record.value ↔ record.recordType = .ds ∧ record.value = [] := by
  have hempty : record.value = [] ↔ byteLen record.value = 0 := byteLen_eq_zero.symm
  simp only [List.mem_cons, List.not_mem_nil, or_false] at hty
  rcases hty with hty | hty | hty | hty | hty
  · simp [rdataLen_caa_ne hty h, hty]
  · simp [rdataLen_tlsa_ne hty h, hty]
  · simp [rdataLen_sshfp_ne hty h, hty]
  · -- half of the digits, so all of them only if there are none
    unfold encodeRdata at h
    simp only [hty] at h
    have hpair := hhex _ _ (orError_eq_ok h)
    rw [hempty]
    simp only [rdataLen, hty, true_and]
    omega
  · -- the decoded key has at least four bytes
    unfold encodeRdata at h
    simp only [hty] at h
    obtain ⟨keyBytes, hkey, h⟩ := bind_eq_ok h
    have hpair := hhex _ _ (orError_eq_ok hkey)
    simp only [rdataLen, hty]
    split at h
    · simp only [List.length_cons] at hpair
      simp only [reduceCtorEq, false_and, iff_false]
      omega
    · cases h

/-- Types whose text is signed: the lengths decide. -/
theorem served_eq_text_iff {lib : Externals} {record : DnsZoneRecord} {rdata : Bytes}
    (hhex : lib.HexPairs) (hty : record.recordType ∈ [.caa, .tlsa, .sshfp, .ds, .dnskey])
    (h : encodeRdata lib record = .ok rdata) :
    rdata = utf8 record.value ↔ record.recordType = .ds ∧ record.value = [] := by
  have hlen := length_encodeRdata hhex h
  have hiff := rdataLen_eq_byteLen_iff hhex hty h
  constructor
  · intro heq
    exact hiff.mp (by rw [← hlen, heq]; rfl)
  · intro hds
    have hzero : rdata.length = 0 := by
      rw [hlen, hiff.mpr hds, hds.2]
      rfl
    rw [List.length_eq_zero_iff.mp hzero, hds.2]
    rfl

/-- SOA records: the two names decide. -/
theorem served_eq_canonicalSoa_iff {lib : Externals} {record : DnsZoneRecord} {rdata : Bytes}
    (hty : record.recordType = .soa)
    (hlower : ∀ name ∈ (splitWhitespace record.value).take 2, lib.toLowercase name = name)
    (h : encodeRdata lib record = .ok rdata) :
    rdata = canonicalSoa lib record.value ↔
      ∀ name ∈ (splitWhitespace record.value).take 2, SoaNameAgrees name := by
  obtain ⟨mname, rname, serial, refresh, retry, expire, minimum, _, hparts, numbers, -, hnumbers,
    rfl⟩ := encodeRdata_soa hty h
  have hsigned : canonicalSoa lib record.value =
      canonicalName lib mname ++ canonicalName lib rname ++ numbers.flatMap u32ToBe := by
    have hread :
        [serial, refresh, retry, expire, minimum].map (fun part => (parseU32 part).getD 0) =
        numbers := by
      have := congrArg (List.map fun n => n.getD 0) hnumbers
      simpa using this
    rw [canonicalSoa, hparts, ← hread, List.flatMap_map]
  rw [hsigned, List.append_cancel_right_eq]
  rw [hparts] at hlower ⊢
  simp only [List.take_succ_cons, List.take_zero, List.mem_cons, List.not_mem_nil, or_false,
    forall_eq_or_imp, forall_eq] at hlower ⊢
  obtain ⟨hm, hr⟩ := hlower
  constructor
  · intro heq
    -- neither name gets longer, so both keep their length
    obtain ⟨hmle, hmiff⟩ := length_encodeName_le hm
    obtain ⟨hrle, hriff⟩ := length_encodeName_le hr
    have hlen := congrArg List.length heq
    simp only [List.length_append] at hlen
    exact ⟨hmiff.mp (by omega), hriff.mp (by omega)⟩
  · rintro ⟨hmname, hrname⟩
    rw [encodeName_eq_canonicalName hm hmname, encodeName_eq_canonicalName hr hrname]

/-! ### Record type by record type -/

section recordTypes
variable {lib : Externals} {record : DnsZoneRecord} {rdata : Bytes}

/-- The signer dispatches on the type code. -/
theorem signedRdata_eq {code : UInt16} (h : record.recordType.code = code) :
    signedRdata lib record =
      canonicalRdata lib code record.value record.priority none none record.ttl := by
  subst h
  rfl

theorem served_eq_signed_address (hty : record.recordType = .a ∨ record.recordType = .aaaa)
    (h : encodeRdata lib record = .ok rdata) : rdata = signedRdata lib record := by
  unfold encodeRdata at h
  rcases hty with hty | hty
  · simp only [hty] at h
    rw [@signedRdata_eq _ _ 1 (by rw [hty]; rfl)]
    simp [canonicalRdata, orError_eq_ok h]
  · simp only [hty] at h
    rw [@signedRdata_eq _ _ 28 (by rw [hty]; rfl)]
    simp [canonicalRdata, orError_eq_ok h]

theorem served_eq_signed_svcb (hty : record.recordType = .svcb ∨ record.recordType = .https)
    (h : encodeRdata lib record = .ok rdata) : rdata = signedRdata lib record := by
  unfold encodeRdata at h
  rcases hty with hty | hty
  · simp only [hty] at h
    rw [@signedRdata_eq _ _ 64 (by rw [hty]; rfl)]
    simp [canonicalRdata, h]
  · simp only [hty] at h
    rw [@signedRdata_eq _ _ 65 (by rw [hty]; rfl)]
    simp [canonicalRdata, h]

theorem served_eq_signed_name_iff (hty : record.recordType = .ns ∨ record.recordType = .cname)
    (hlower : lib.toLowercase record.value = record.value)
    (h : encodeRdata lib record = .ok rdata) :
    rdata = signedRdata lib record ↔ labels record.value ≠ [] := by
  have hnames : encodeLabels (nameParts record.value) ++ [0] = canonicalName lib record.value ↔
      labels record.value ≠ [] := by
    rw [canonicalName_eq hlower]
    exact encodeLabels_nameParts_eq_iff record.value
  unfold encodeRdata at h
  rcases hty with hty | hty
  · simp only [hty] at h
    split_ifs at h
    obtain rfl := Except.ok.inj h
    rw [@signedRdata_eq _ _ 2 (by rw [hty]; rfl)]
    exact hnames
  · simp only [hty] at h
    split_ifs at h
    obtain rfl := Except.ok.inj h
    rw [@signedRdata_eq _ _ 5 (by rw [hty]; rfl)]
    exact hnames

theorem served_eq_signed_mx_iff (hty : record.recordType = .mx)
    (hlower : lib.toLowercase record.value = record.value)
    (h : encodeRdata lib record = .ok rdata) :
    rdata = signedRdata lib record ↔ labels record.value ≠ [] := by
  unfold encodeRdata at h
  simp only [hty] at h
  split_ifs at h
  obtain rfl := Except.ok.inj h
  have hcanon : canonicalRdata lib 15 record.value record.priority none none record.ttl =
      u16ToBe (record.priority.getD 10).toUInt16 ++
      (encodeLabels (labels record.value) ++ [0]) := by
    rw [← canonicalName_eq hlower]
    rfl
  rw [@signedRdata_eq _ _ 15 (by rw [hty]; rfl), hcanon, List.append_assoc,
    List.append_cancel_left_eq]
  exact encodeLabels_nameParts_eq_iff record.value

theorem served_eq_signed_txt_iff (hty : record.recordType = .txt)
    (h : encodeRdata lib record = .ok rdata) :
    rdata = signedRdata lib record ↔ TxtAgrees record.value := by
  unfold encodeRdata at h
  simp only [hty] at h
  have hcanon : canonicalRdata lib 16 record.value record.priority none none record.ttl =
      canonicalTxt (utf8 record.value) := rfl
  rw [@signedRdata_eq _ _ 16 (by rw [hty]; rfl), hcanon]
  by_cases hnil : record.value = []
  · rw [hnil] at h ⊢
    obtain rfl := Except.ok.inj h
    exact ⟨fun _ => Or.inl rfl, fun _ => rfl⟩
  · have hne : utf8 record.value ≠ [] := by
      intro hu
      exact hnil (byteLen_eq_zero.mp (by rw [byteLen, hu]; rfl))
    rw [if_neg hne] at h
    obtain rfl := Except.ok.inj h
    exact txtChunks_eq_canonicalTxt_iff hnil

theorem served_ne_signed_ptr (hty : record.recordType = .ptr)
    (h : encodeRdata lib record = .ok rdata) : rdata ≠ signedRdata lib record := by
  unfold encodeRdata at h
  simp only [hty] at h
  obtain rfl := Except.ok.inj h
  rw [@signedRdata_eq _ _ 12 (by rw [hty]; rfl)]
  exact encodeLabels_nameParts_ne_utf8 record.value

/-- The types whose text is signed. -/
theorem signedRdata_text (hty : record.recordType ∈ [.caa, .tlsa, .sshfp, .ds, .dnskey]) :
    signedRdata lib record = utf8 record.value := by
  simp only [List.mem_cons, List.not_mem_nil, or_false] at hty
  rcases hty with hty | hty | hty | hty | hty
  · exact @signedRdata_eq _ _ 257 (by rw [hty]; rfl)
  · exact @signedRdata_eq _ _ 52 (by rw [hty]; rfl)
  · exact @signedRdata_eq _ _ 44 (by rw [hty]; rfl)
  · exact @signedRdata_eq _ _ 43 (by rw [hty]; rfl)
  · exact @signedRdata_eq _ _ 48 (by rw [hty]; rfl)

theorem served_eq_signed_text_iff (hhex : lib.HexPairs)
    (hty : record.recordType ∈ [.caa, .tlsa, .sshfp, .ds, .dnskey])
    (h : encodeRdata lib record = .ok rdata) :
    rdata = signedRdata lib record ↔ record.recordType = .ds ∧ record.value = [] := by
  rw [signedRdata_text hty]
  exact served_eq_text_iff hhex hty h

end recordTypes

/-- **Served RDATA is signed RDATA** exactly for the records in `Agrees`: for
    every record of a signed type with lower-case names that encodes. -/
theorem served_eq_signed_iff (lib : Externals) (hhex : lib.HexPairs) (record : DnsZoneRecord)
    (qnameCompressed : Option (Str × UInt16)) {encoded : EncodedRecord}
    (hty : record.recordType ∈ signedTypes) (hlower : LowerNames lib record)
    (h : encodeRr lib record qnameCompressed = .ok encoded) :
    servedRdata lib record qnameCompressed encoded = signedRdata lib record ↔ Agrees record := by
  -- from here on the owner name plays no role
  replace h := servedRdata_eq h
  generalize servedRdata lib record qnameCompressed encoded = rdata at h ⊢
  have htext := fun hmem => served_eq_signed_text_iff hhex hmem h
  unfold LowerNames at hlower
  unfold Agrees
  cases hrt : record.recordType with
  | a => exact iff_of_true (served_eq_signed_address (.inl hrt) h) trivial
  | aaaa => exact iff_of_true (served_eq_signed_address (.inr hrt) h) trivial
  | svcb => exact iff_of_true (served_eq_signed_svcb (.inl hrt) h) trivial
  | https => exact iff_of_true (served_eq_signed_svcb (.inr hrt) h) trivial
  | ns =>
    simp only [hrt] at hlower
    exact served_eq_signed_name_iff (.inl hrt) hlower h
  | cname =>
    simp only [hrt] at hlower
    exact served_eq_signed_name_iff (.inr hrt) hlower h
  | mx =>
    simp only [hrt] at hlower
    exact served_eq_signed_mx_iff hrt hlower h
  | soa =>
    simp only [hrt] at hlower
    rw [@signedRdata_eq _ _ 6 (by rw [hrt]; rfl)]
    exact served_eq_canonicalSoa_iff hrt hlower h
  | txt => exact served_eq_signed_txt_iff hrt h
  | ptr => exact iff_of_false (served_ne_signed_ptr hrt h) id
  | ds => exact (htext (by simp [hrt])).trans (by simp [hrt])
  | caa => exact (htext (by simp [hrt])).trans (by simp [hrt])
  | tlsa => exact (htext (by simp [hrt])).trans (by simp [hrt])
  | sshfp => exact (htext (by simp [hrt])).trans (by simp [hrt])
  | dnskey => exact (htext (by simp [hrt])).trans (by simp [hrt])
  | naptr => simp [signedTypes, hrt] at hty
  | opt => simp [signedTypes, hrt] at hty
  | rrsig => simp [signedTypes, hrt] at hty
  | nsec => simp [signedTypes, hrt] at hty
  | nsec3 => simp [signedTypes, hrt] at hty
  | nsec3param => simp [signedTypes, hrt] at hty
  | other code => simp [signedTypes, hrt] at hty

/-- The alias `x` to `a.b` is served as it is signed. -/
theorem served_eq_signed_cname :
    servedRdata asciiExternals ⟨"x".toList, .cname, "a.b".toList, 60, none⟩ none
        ⟨.answer, .cname, 60, [1, 120, 0, 0, 5, 0, 1, 0, 0, 0, 60, 0, 5, 1, 97, 1, 98, 0]⟩ =
      signedRdata asciiExternals ⟨"x".toList, .cname, "a.b".toList, 60, none⟩ :=
  (served_eq_signed_iff asciiExternals asciiExternals_hexPairs
    ⟨"x".toList, .cname, "a.b".toList, 60, none⟩ none (by decide) rfl rfl).mpr
    (show labels "a.b".toList ≠ [] by decide)

/-- The pointer `p` to `a`: the wire format of `a` is served, its text is
    signed. -/
theorem served_ptr_not_signed :
    RecordType.ptr ∈ signedTypes ∧
    LowerNames asciiExternals ⟨"p".toList, .ptr, "a".toList, 60, none⟩ ∧
    ∃ encoded, encodeRr asciiExternals ⟨"p".toList, .ptr, "a".toList, 60, none⟩ none = .ok encoded ∧
      servedRdata asciiExternals ⟨"p".toList, .ptr, "a".toList, 60, none⟩ none encoded =
        [1, 97, 0] ∧
      signedRdata asciiExternals ⟨"p".toList, .ptr, "a".toList, 60, none⟩ = [97] := by
  refine ⟨by decide, rfl, ⟨.answer, .ptr, 60, ?_⟩, ?_⟩
  · exact [1, 112, 0, 0, 12, 0, 1, 0, 0, 0, 60, 0, 3, 1, 97, 0]
  · exact ⟨rfl, rfl, rfl⟩

end Synvoid.Dns
