import Synvoid.Dns.CanonicalRdata

/-! # Encoded records by the grammar of resource records

    What `encode_rr` writes, read by the grammar of RFC 1035: owner name or
    pointer, type, class, TTL, RDLENGTH and RDATA (`readRr`). The record is
    well formed (`WellFormedRr`) if the reader takes all of it and the names
    in it are names.

    Three things can go wrong (`RrFits` rules them out): RDATA of 64 KiB or
    more, whose length does not fit its field; a name value without labels,
    which is written with a zero byte too many; and labels of more than 63
    bytes in MX and PTR records, which only CNAME and NS records reject.
-/

namespace Synvoid.Dns

open Synvoid.Framework

/-! ## Section 1: The grammar -/

structure WireRr where
  owner : Bytes
  rrType : UInt16
  rrClass : UInt16
  ttl : Bytes
  rdlength : UInt16
  rdata : Bytes

/-- Takes a resource record off the front of the bytes. -/
def readRr (bytes : Bytes) : Option (WireRr × Bytes) := do
  let (owner, rest) ← readName bytes.length bytes
  match rest with
  | t₁ :: t₂ :: c₁ :: c₂ :: ttl₁ :: ttl₂ :: ttl₃ :: ttl₄ :: l₁ :: l₂ :: rest =>
      let rdlength := u16FromBe l₁ l₂
      if rdlength.toNat ≤ rest.length then
        some (⟨owner, u16FromBe t₁ t₂, u16FromBe c₁ c₂, [ttl₁, ttl₂, ttl₃, ttl₄], rdlength,
          rest.take rdlength.toNat⟩, rest.drop rdlength.toNat)
      else none
  | _ => none

/-- An owner: a name or a pointer. -/
def IsOwner (owner : Bytes) : Prop :=
  IsWireName owner ∨ ∃ hi lo : UInt8, owner = [hi, lo] ∧ 192 ≤ hi.toNat

/-- The names in the RDATA of a type are names, with nothing after them but
    the fields of an SOA record. -/
def RdataNames (recordType : RecordType) (rdata : Bytes) : Prop :=
  match recordType with
  | .cname | .ns | .ptr => IsWireName rdata
  | .mx => IsWireName (rdata.drop 2)
  | .soa => ∃ mname rname fields, rdata = mname ++ rname ++ fields ∧
      IsWireName mname ∧ IsWireName rname ∧ fields.length = 20
  | _ => True

/-- Reading takes all bytes of a record written with this RDATA, its length
    field is right, and the names of owner and RDATA are names. -/
def WellFormedRr (recordType : RecordType) (rdata bytes : Bytes) : Prop :=
  ∃ rr, readRr bytes = some (rr, []) ∧ rr.rdlength.toNat = rdata.length ∧
    IsOwner rr.owner ∧ RdataNames recordType rr.rdata

/-! ## Section 2: When a record fits -/

/-- Labels whose bytes, although one of them is too long and its length byte
    wrapped around, happen to read as other labels within the limit. -/
def ReadsByChance (ls : List Str) : Prop :=
  (∃ l ∈ ls, 256 < byteLen l) ∧ ∃ ms : List Bytes, (∀ m ∈ ms, 1 ≤ m.length ∧ m.length ≤ 63) ∧
    ms.flatMap (fun m => UInt8.ofNat m.length :: m) = encodeLabels ls

/-- The name value of a type has a label and, where nothing checks it, no
    label of more than 63 bytes. -/
def NameFits (recordType : RecordType) (value : Str) : Prop :=
  match recordType with
  | .cname | .ns => labels value ≠ []
  | .mx | .ptr => labels value ≠ [] ∧
      ((∀ l ∈ labels value, byteLen l ≤ 63) ∨ ReadsByChance (labels value))
  | _ => True

def RrFits (lib : Externals) (record : DnsZoneRecord) : Prop :=
  rdataLen lib record < 65536 ∧ NameFits record.recordType record.value

/-! ## Section 3: Owners -/

theorem length_lt_length_wireName (ls : List Bytes) : ls.length < (wireName ls).length := by
  induction ls with
  | nil => exact Nat.one_pos
  | cons l ls ih =>
    rw [wireName_cons]
    simp only [List.length_cons, List.length_append]
    omega

theorem readName_owner {owner : Bytes} (howner : IsOwner owner) (rest : Bytes) (fuel : Nat)
    (hfuel : owner.length ≤ fuel) : readName fuel (owner ++ rest) = some (owner, rest) := by
  rcases howner with ⟨ls, hls, rfl⟩ | ⟨hi, lo, rfl, hhi⟩
  · -- one unit of fuel a label and one for the zero byte
    exact readName_wireName hls rest fuel (Nat.lt_of_lt_of_le (length_lt_length_wireName ls) hfuel)
  · cases fuel with
    | zero => simp at hfuel
    | succ fuel =>
      have hne : hi ≠ 0 := by
        rintro rfl
        simp at hhi
      rw [List.cons_append, readName, if_neg hne, if_pos hhi]
      rfl

/-- `encode_name` drops the labels that do not fit. -/
theorem isWireName_encodeName (name : Str) : IsWireName (encodeName name) := by
  have hkept : ∀ l ∈ keptLabels name, l ≠ [] ∧ byteLen l ≤ 63 := by
    intro l hl
    unfold keptLabels at hl
    split_ifs at hl
    · simp at hl
    · obtain ⟨hmem, hle⟩ := List.mem_filter.mp hl
      exact ⟨ne_nil_of_mem_labels hmem, by simpa using hle⟩
  rw [encodeName_eq]
  exact (isWireName_encodeLabels_iff fun l hl => Nat.le_trans (hkept l hl).2 (by decide)).mpr hkept

theorem isOwner_encodeOwner (lib : Externals) (record : DnsZoneRecord)
    (qnameCompressed : Option (Str × UInt16)) :
    IsOwner (encodeOwner lib record qnameCompressed) := by
  unfold encodeOwner
  split
  · next qname offset =>
    simp only
    split_ifs
    · refine Or.inr ⟨_, _, rfl, ?_⟩
      rw [UInt8.toNat_or]
      exact Nat.left_le_or
    · exact Or.inl (isWireName_encodeName _)
    · exact Or.inr ⟨_, _, rfl, by rw [UInt8.toNat_or]; exact Nat.left_le_or⟩
    · exact Or.inl (isWireName_encodeName _)
  · exact Or.inl (isWireName_encodeName _)

/-! ## Section 4: Reading an encoded record -/

/-- The reader gets the owner, and of the RDATA what the 16-bit length says. -/
theorem readRr_encodeRr {lib : Externals} {record : DnsZoneRecord}
    {qnameCompressed : Option (Str × UInt16)} {encoded : EncodedRecord} {rdata : Bytes}
    (hrdata : encodeRdata lib record = .ok rdata)
    (h : encodeRr lib record qnameCompressed = .ok encoded) :
    readRr encoded.bytes = some
      (⟨encodeOwner lib record qnameCompressed, record.recordType.code, 1, u32ToBe record.ttl,
        UInt16.ofNat rdata.length, rdata.take (rdata.length % 65536)⟩,
        rdata.drop (rdata.length % 65536)) := by
  obtain ⟨rdata', hrdata', h⟩ := bind_eq_ok h
  obtain rfl : rdata = rdata' := Except.ok.inj (hrdata.symm.trans hrdata')
  obtain rfl := Except.ok.inj h
  have howner := isOwner_encodeOwner lib record qnameCompressed
  -- the ten bytes behind the owner are read one by one, then the length is taken modulo 2^16
  generalize encodeOwner lib record qnameCompressed = owner at howner ⊢
  have hname := readName_owner howner
    (u16ToBe record.recordType.code ++ u16ToBe 1 ++ u32ToBe record.ttl ++
      u16ToBe (UInt16.ofNat rdata.length) ++ rdata)
  have hlen : (UInt16.ofNat rdata.length).toNat = rdata.length % 65536 := by
    rw [UInt16.toNat_ofNat']
  have hle : rdata.length % 65536 ≤ rdata.length := Nat.mod_le _ _
  unfold readRr
  simp only [List.append_assoc] at hname ⊢
  rw [hname _ (by simp)]
  simp only [Option.bind_eq_bind, Option.bind_some, u16ToBe, u32ToBe, List.cons_append,
    List.nil_append, u16FromBe_u16ToBe]
  simp only [hlen, hle, if_true]

/-- The record is read to its end exactly if the length of its RDATA fits the
    length field. -/
theorem wellFormedRr_iff {lib : Externals} {record : DnsZoneRecord}
    {qnameCompressed : Option (Str × UInt16)} {encoded : EncodedRecord} {rdata : Bytes}
    (hrdata : encodeRdata lib record = .ok rdata)
    (h : encodeRr lib record qnameCompressed = .ok encoded) :
    WellFormedRr record.recordType rdata encoded.bytes ↔
      rdata.length < 65536 ∧ RdataNames record.recordType rdata := by
  have hread := readRr_encodeRr hrdata h
  constructor
  · intro ⟨rr, hrr, _, _, hnames⟩
    -- nothing is left over, so the length did not wrap around
    rw [hread, Option.some.injEq, Prod.mk.injEq, List.drop_eq_nil_iff] at hrr
    obtain ⟨rfl, hle⟩ := hrr
    rw [List.take_of_length_le hle] at hnames
    exact ⟨Nat.lt_of_le_of_lt hle (Nat.mod_lt _ (by decide)), hnames⟩
  · intro ⟨hlt, hnames⟩
    rw [Nat.mod_eq_of_lt hlt, List.take_length, List.drop_length] at hread
    refine ⟨_, hread, ?_, isOwner_encodeOwner lib record qnameCompressed, hnames⟩
    rw [UInt16.toNat_ofNat', Nat.mod_eq_of_lt hlt]

/-! ## Section 5: Name values -/

/-- A name value without labels is written with two zero bytes. -/
theorem not_isWireName_of_labels_eq_nil {value : Str} (h : labels value = []) :
    ¬ IsWireName (encodeLabels (nameParts value) ++ [0]) := by
  rw [nameParts, if_pos h]
  intro hname
  exact ((isWireName_encodeLabels_iff (by simp)).mp hname [] (by simp)).1 rfl

/-- The encoding of labels is a name only if they are within the limit, or by
    chance. -/
theorem isWireName_labels_iff (value : Str) :
    IsWireName (encodeLabels (labels value) ++ [0]) ↔
      (∀ l ∈ labels value, byteLen l ≤ 63) ∨ ReadsByChance (labels value) := by
  have hne : ∀ l ∈ labels value, l ≠ [] := fun l hl => ne_nil_of_mem_labels hl
  -- the length byte of a label of 64 to 256 bytes is above 63 or 0, which no label has
  by_cases hlong : ∃ l ∈ labels value, 256 < byteLen l
  · constructor
    · intro ⟨ms, hms, heq⟩
      exact Or.inr ⟨hlong, ms, hms, (List.append_cancel_right heq).symm⟩
    · rintro (hall | ⟨-, ms, hms, heq⟩)
      · obtain ⟨l, hl, hlt⟩ := hlong
        exact absurd (hall l hl) (by omega)
      · exact ⟨ms, hms, by rw [wireName, heq]⟩
  · have hle : ∀ l ∈ labels value, byteLen l ≤ 256 := by
      intro l hl
      exact Nat.le_of_not_lt fun hlt => hlong ⟨l, hl, hlt⟩
    rw [isWireName_encodeLabels_iff hle]
    constructor
    · intro hall
      exact Or.inl fun l hl => (hall l hl).2
    · rintro (hall | hchance)
      · exact fun l hl => ⟨hne l hl, hall l hl⟩
      · exact absurd hchance.1 hlong

/-- Name values as MX and PTR records write them. -/
theorem isWireName_nameParts_iff (value : Str) :
    IsWireName (encodeLabels (nameParts value) ++ [0]) ↔
      labels value ≠ [] ∧
        ((∀ l ∈ labels value, byteLen l ≤ 63) ∨ ReadsByChance (labels value)) := by
  by_cases hnil : labels value = []
  · exact ⟨fun h => absurd h (not_isWireName_of_labels_eq_nil hnil), fun h => absurd hnil h.1⟩
  · rw [nameParts, if_neg hnil, isWireName_labels_iff]
    exact ⟨fun h => ⟨hnil, h⟩, fun h => h.2⟩

/-- Name values as CNAME and NS records write them: long labels are rejected. -/
theorem isWireName_checked_nameParts_iff {value : Str}
    (h : ¬ (nameParts value).any (fun part => byteLen part > 63) = true) :
    IsWireName (encodeLabels (nameParts value) ++ [0]) ↔ labels value ≠ [] := by
  rw [isWireName_nameParts_iff]
  refine ⟨fun hfits => hfits.1, fun hne => ⟨hne, Or.inl ?_⟩⟩
  intro l hl
  simp only [List.any_eq_true, decide_eq_true_eq, not_exists, not_and, Nat.not_lt] at h
  exact h l (by rw [nameParts, if_neg hne]; exact hl)

theorem rdataNames_iff {lib : Externals} {record : DnsZoneRecord} {rdata : Bytes}
    (h : encodeRdata lib record = .ok rdata) :
    RdataNames record.recordType rdata ↔ NameFits record.recordType record.value := by
  unfold encodeRdata at h
  unfold RdataNames NameFits
  cases hrt : record.recordType with
  | cname =>
    simp only [hrt] at h ⊢
    split_ifs at h with hlong
    obtain rfl := Except.ok.inj h
    exact isWireName_checked_nameParts_iff hlong
  | ns =>
    simp only [hrt] at h ⊢
    split_ifs at h with hlong
    obtain rfl := Except.ok.inj h
    exact isWireName_checked_nameParts_iff hlong
  | ptr =>
    simp only [hrt] at h ⊢
    obtain rfl := Except.ok.inj h
    exact isWireName_nameParts_iff record.value
  | mx =>
    simp only [hrt] at h ⊢
    split_ifs at h
    obtain rfl := Except.ok.inj h
    exact isWireName_nameParts_iff record.value
  | soa =>
    obtain ⟨mname, rname, _, _, _, _, _, _, -, numbers, hfive, -, rfl⟩ := encodeRdata_soa hrt h
    simp only [iff_true]
    refine ⟨encodeName mname, encodeName rname, _, rfl, isWireName_encodeName mname,
      isWireName_encodeName rname, ?_⟩
    rw [length_flatMap_u32ToBe, hfive]
  -- the other types have no names in their RDATA
  | _ => rfl

/-! ## Section 6: Well-formed records -/

/-- **Encoded records are well formed** exactly if they fit: for every record
    that encodes, with and without compression of the owner name. -/
theorem encoded_rr_well_formed_iff (lib : Externals) (hhex : lib.HexPairs) (record : DnsZoneRecord)
    (qnameCompressed : Option (Str × UInt16)) {encoded : EncodedRecord}
    (h : encodeRr lib record qnameCompressed = .ok encoded) :
    WellFormedRr record.recordType (servedRdata lib record qnameCompressed encoded)
      encoded.bytes ↔ RrFits lib record := by
  have hrdata := servedRdata_eq h
  rw [wellFormedRr_iff hrdata h, rdataNames_iff hrdata, length_encodeRdata hhex hrdata]
  rfl

/-- The alias `x` to `a.b` is well formed, here behind a pointer. -/
theorem encoded_rr_well_formed_cname :
    WellFormedRr .cname [1, 97, 1, 98, 0]
      [192, 12, 0, 5, 0, 1, 0, 0, 0, 60, 0, 5, 1, 97, 1, 98, 0] :=
  (encoded_rr_well_formed_iff asciiExternals asciiExternals_hexPairs
    ⟨"x".toList, .cname, "a.b".toList, 60, none⟩ (some ("X".toList, 12)) rfl).mpr
    ⟨by decide, show labels "a.b".toList ≠ [] by decide⟩

/-- The alias `x` to the root is written with two zero bytes. -/
theorem encoded_root_cname_not_well_formed :
    ∃ encoded, encodeRr asciiExternals ⟨"x".toList, .cname, ".".toList, 60, none⟩ none =
        .ok encoded ∧
      servedRdata asciiExternals ⟨"x".toList, .cname, ".".toList, 60, none⟩ none encoded = [0, 0] ∧
      ¬ WellFormedRr .cname [0, 0] encoded.bytes := by
  refine ⟨⟨.answer, .cname, 60, [1, 120, 0, 0, 5, 0, 1, 0, 0, 0, 60, 0, 2, 0, 0]⟩, rfl, rfl, ?_⟩
  intro ⟨rr, hread, _, _, hnames⟩
  obtain rfl : rr = ⟨[1, 120, 0], 5, 1, [0, 0, 0, 60], 2, [0, 0]⟩ := by
    exact (Prod.mk.inj (Option.some.inj hread)).1.symm
  have hroot : labels [] = [] := rfl
  exact not_isWireName_of_labels_eq_nil hroot hnames

end Synvoid.Dns
