import Synvoid.Dns.ResponseEncoder

/-! # How long the RDATA of a record is

    The length of what `encodeRdata` writes, from the record alone
    (`rdataLen`). The length field of a resource record has 16 bits and the
    encoders never check it, so this is what decides whether it is right.
-/

namespace Synvoid.Dns

open Synvoid.Framework

/-! ## Section 1: The length of the encoding -/

/-- The length of a name value: its labels and the final zero. -/
def nameLen (value : Str) : Nat := ((nameParts value).map fun l => byteLen l + 1).sum + 1

/-- The length of a target: as for a name, without the empty label. -/
def targetLen (target : Str) : Nat := ((labels target).map fun l => byteLen l + 1).sum + 1

def portLen (val : Str) : Nat := if (parseU16 val).isSome then 2 else 0

def hexLen (lib : Externals) (val : Str) : Nat :=
  if (lib.hexDecode val).isSome then byteLen val / 2 else 0

/-- The length of an HTTP version and port. -/
def nhttpLen (val : Str) : Nat :=
  match splitOnce '/' val with
  | some (ver, rest) => byteLen ver + portLen rest
  | none => 0

/-- The length of the value of a service parameter. -/
def svcValueLen (lib : Externals) (key : UInt16) (val : Str) : Nat :=
  let items := (val.splitOn ',').map trim
  if key = 0 then 2 * items.countP fun m => (mandatoryKey m).isSome
  else if key = 1 then (items.map fun alpn => byteLen alpn + 1).sum
  else if key = 2 then 0
  else if key = 3 then portLen val
  else if key = 4 then 4 * items.countP fun ip => (parseIpv4 ip).isSome
  else if key = 5 then hexLen lib val
  else if key = 6 then 16 * items.countP fun ip => (parseIpv6 ip).isSome
  else if key = 7 then portLen val
  else if key = 8 then nhttpLen val
  else byteLen val

/-- The length of a service parameter: four bytes of key and length before the
    value, nothing if the key is not known or the value empty. -/
def svcParamLen (lib : Externals) (param : Str) : Nat :=
  match splitOnce '=' param with
  | some (key, val) =>
      match svcParamKey key with
      | some key => if svcValueLen lib key val = 0 then 0 else 4 + svcValueLen lib key val
      | none => 0
  | none => 0

/-- The length of an SOA value from its fields: two names and five numbers. -/
def soaLen : List Str → Nat
  | mname :: rname :: _ => (encodeName mname).length + (encodeName rname).length + 20
  | _ => 0

/-- The length of a CAA value from its parts: flags, tag and value, or all of
    the text behind two bytes. -/
def caaLen (text : Str) : List Str → Nat
  | [_, tag, value] => 2 + byteLen tag + byteLen (trimMatches '"' value)
  | _ => 2 + byteLen text

def tlsaLen : List Str → Nat
  | [_, _, _, certData] => 3 + byteLen certData / 2
  | _ => 0

def svcbLen (lib : Externals) : List Str → Nat
  | _ :: target :: params => 2 + targetLen target + (params.map (svcParamLen lib)).sum
  | _ => 0

def naptrLen : List Str → Nat
  | _ :: _ :: flags :: service :: replacement :: rest =>
      7 + byteLen flags + byteLen service + byteLen (rest.headD []) + targetLen replacement
  | _ => 0

def sshfpLen : List Str → Nat
  | _ :: _ :: rest => 2 + byteLen ((rest.headD []).filter fun c => c ≠ ':' ∧ c ≠ ' ') / 2
  | _ => 0

def txtLen (txt : Str) : Nat :=
  if txt = [] then 1 else byteLen txt + (byteLen txt + 254) / 255

/-- The length of the RDATA of a record that encodes. -/
def rdataLen (lib : Externals) (record : DnsZoneRecord) : Nat :=
  match record.recordType with
  | .a => 4
  | .aaaa => 16
  | .cname | .ns | .ptr => nameLen record.value
  | .mx => 2 + nameLen record.value
  | .txt => txtLen record.value
  | .soa => soaLen (splitWhitespace record.value)
  | .nsec | .nsec3 | .nsec3param | .dnskey | .ds | .rrsig => byteLen record.value / 2
  | .caa => caaLen record.value (splitn ' ' 3 record.value)
  | .tlsa => tlsaLen (splitn ' ' 4 record.value)
  | .svcb | .https => svcbLen lib (splitWhitespace record.value)
  | .naptr => naptrLen (splitWhitespace record.value)
  | .sshfp => sshfpLen (splitWhitespace record.value)
  | .opt | .other _ => 0

/-! ## Section 2: It is right -/

theorem orError_eq_ok {α : Type} {text : String} {o : Option α} {a : α}
    (h : orError text o = .ok a) : o = some a := by
  cases o with
  | none => cases h
  | some b => exact congrArg some (Except.ok.inj h)

/-- A parsed field and what follows. -/
theorem orError_bind_eq_ok {α β : Type} {text : String} {o : Option α}
    {f : α → Except String β} {b : β} (h : orError text o >>= f = .ok b) :
    ∃ a, o = some a ∧ f a = .ok b := by
  obtain ⟨a, ha, hf⟩ := bind_eq_ok h
  exact ⟨a, orError_eq_ok ha, hf⟩

/-- Chunks of 255 bytes, each behind a length byte. -/
theorem length_txtChunks (fuel : Nat) (txt : Bytes) (hfuel : txt.length ≤ fuel) :
    (txtChunks fuel txt).length = txt.length + (txt.length + 254) / 255 := by
  induction fuel generalizing txt with
  | zero =>
    have : txt = [] := List.length_eq_zero_iff.mp (by omega)
    simp [txtChunks, this]
  | succ fuel ih =>
    unfold txtChunks
    by_cases hnil : txt = []
    · simp [hnil]
    · -- a chunk takes up to 255 bytes and adds one
      have hpos : 0 < txt.length := List.length_pos_iff.mpr hnil
      rw [if_neg hnil]
      simp only [List.length_append, List.length_cons, List.length_take]
      rw [ih _ (by rw [List.length_drop]; omega), List.length_drop]
      omega

theorem caaLen_of_not_three {text : Str} {parts : List Str}
    (h : ∀ flags tag value, parts ≠ [flags, tag, value]) :
    caaLen text parts = 2 + byteLen text := by
  unfold caaLen
  split
  · next flags tag value => exact absurd rfl (h flags tag value)
  · rfl

theorem length_encodeTarget (target : Str) : (encodeTarget target).length = targetLen target := by
  have hlen : (encodeLabels (labels target) ++ [0]).length = targetLen target := by
    simp [targetLen, length_encodeLabels]
  unfold encodeTarget
  split_ifs with hdot hnil
  · exact hlen
  · rw [hnil]
    rfl
  · exact hlen

/-- Items that are encoded in `size` bytes or not at all. -/
theorem length_flatMap_trim (size : Nat) (f : Str → Option Bytes)
    (hsize : ∀ s bytes, f s = some bytes → bytes.length = size) (items : List Str) :
    (items.flatMap fun s => (f (trim s)).getD []).length =
      size * (items.map trim).countP fun s => (f s).isSome := by
  induction items with
  | nil => simp
  | cons s items ih =>
    rw [List.flatMap_cons, List.length_append, ih]
    cases hs : f (trim s) with
    | none => simp [hs]
    | some bytes => simp [hs, hsize _ bytes hs, Nat.mul_add, Nat.add_comm]

theorem length_encodePort (val : Str) : (encodePort val).length = portLen val := by
  unfold encodePort portLen
  cases parseU16 val <;> rfl

theorem length_encodeSvcParam {lib : Externals} (hhex : lib.HexPairs) (key : UInt16) (val : Str) :
    (encodeSvcParam lib key val).length = svcValueLen lib key val := by
  have hmandatory := length_flatMap_trim 2 (fun m => (mandatoryKey m).map u16ToBe)
    (fun m bytes hm => by obtain ⟨key, -, rfl⟩ := Option.map_eq_some_iff.mp hm; rfl)
    (val.splitOn ',')
  have halpn : ((val.splitOn ',').flatMap fun alpn => encodeLabel (trim alpn)).length =
      (((val.splitOn ',').map trim).map fun alpn => byteLen alpn + 1).sum := by
    simp [List.length_flatMap, Function.comp_def]
  have hipv4 := length_flatMap_trim 4 parseIpv4 (fun _ _ => length_of_parseIpv4) (val.splitOn ',')
  have hipv6 := length_flatMap_trim 16 parseIpv6 (fun _ _ => length_of_parseIpv6) (val.splitOn ',')
  have hech : ((lib.hexDecode val).getD []).length = hexLen lib val := by
    unfold hexLen
    cases hdec : lib.hexDecode val with
    | none => rfl
    | some bytes =>
      have := hhex val bytes hdec
      simp
      omega
  have hnhttp : (encodeNhttp val).length = nhttpLen val := by
    unfold encodeNhttp nhttpLen
    cases splitOnce '/' val <;> simp [length_encodePort]
  simp only [Option.isSome_map] at hmandatory
  unfold encodeSvcParam svcValueLen
  simp only [apply_ite List.length, hmandatory, halpn, hipv4, hipv6, hech, hnhttp,
    length_encodePort, length_utf8, List.length_nil]

/-- The parameters that are written have the length of the list. -/
theorem length_svcParams {lib : Externals} (hhex : lib.HexPairs) (params : List Str) :
    ((svcParams lib params).map fun p => 4 + p.2.length).sum =
      (params.map (svcParamLen lib)).sum := by
  induction params with
  | nil => rfl
  | cons param params ih =>
    rw [List.map_cons, List.sum_cons, ← ih]
    unfold svcParams svcParamLen
    rw [List.filterMap_cons]
    cases splitOnce '=' param with
    | none => simp
    | some field =>
      cases hkey : svcParamKey field.1 with
      | none => simp [hkey]
      | some key =>
        have hlen := length_encodeSvcParam hhex key field.2
        -- a parameter with an empty encoding is left out, so the length has to know when that is
        have hempty : encodeSvcParam lib key field.2 = [] ↔ svcValueLen lib key field.2 = 0 := by
          rw [← hlen, List.length_eq_zero_iff]
        by_cases hnil : encodeSvcParam lib key field.2 = []
        · simp [hkey, hnil, hempty.mp hnil]
        · simp [hkey, hnil, mt hempty.mpr hnil, hlen]

theorem length_parseSvcbValue {lib : Externals} (hhex : lib.HexPairs) {value : Str} {rdata : Bytes}
    (h : parseSvcbValue lib value = .ok rdata) :
    rdata.length = svcbLen lib (splitWhitespace value) := by
  unfold parseSvcbValue at h
  split at h
  · next priority target params hparts =>
    obtain ⟨_, -, h⟩ := orError_bind_eq_ok h
    obtain rfl := Except.ok.inj h
    -- sorting does not change the total
    have hperm := (List.mergeSort_perm (svcParams lib params) fun p q => p.1 ≤ q.1).map
      fun p => 4 + p.2.length
    rw [hparts]
    simp only [svcbLen, List.length_append, length_u16ToBe, length_encodeTarget,
      List.length_flatMap]
    rw [← length_svcParams hhex, ← hperm.sum_eq]
  · cases h

theorem length_parseNaptrValue {value : Str} {rdata : Bytes}
    (h : parseNaptrValue value = .ok rdata) :
    rdata.length = naptrLen (splitWhitespace value) := by
  unfold parseNaptrValue at h
  split at h
  · next order preference flags service replacement rest hparts =>
    obtain ⟨_, -, h⟩ := orError_bind_eq_ok h
    obtain ⟨_, -, h⟩ := orError_bind_eq_ok h
    obtain rfl := Except.ok.inj h
    rw [hparts]
    simp only [naptrLen, List.length_append, length_u16ToBe, length_encodeLabel,
      length_encodeTarget]
    omega
  · cases h

/-- The fields of an SOA record that encodes: two names and five numbers. -/
theorem encodeRdata_soa {lib : Externals} {record : DnsZoneRecord} {rdata : Bytes}
    (hty : record.recordType = .soa) (h : encodeRdata lib record = .ok rdata) :
    ∃ mname rname serial refresh retry expire minimum rest,
      splitWhitespace record.value =
        mname :: rname :: serial :: refresh :: retry :: expire :: minimum :: rest ∧
      ∃ numbers : List UInt32, numbers.length = 5 ∧
        [serial, refresh, retry, expire, minimum].map parseU32 = numbers.map some ∧
        rdata = encodeName mname ++ encodeName rname ++ numbers.flatMap u32ToBe := by
  unfold encodeRdata at h
  simp only [hty] at h
  split at h
  · next mname rname serial refresh retry expire minimum rest hparts =>
    obtain ⟨n₁, hserial, h⟩ := orError_bind_eq_ok h
    obtain ⟨n₂, hrefresh, h⟩ := orError_bind_eq_ok h
    obtain ⟨n₃, hretry, h⟩ := orError_bind_eq_ok h
    obtain ⟨n₄, hexpire, h⟩ := orError_bind_eq_ok h
    obtain ⟨n₅, hminimum, h⟩ := orError_bind_eq_ok h
    obtain rfl := Except.ok.inj h
    refine ⟨mname, rname, serial, refresh, retry, expire, minimum, rest, hparts,
      [n₁, n₂, n₃, n₄, n₅], rfl, ?_, ?_⟩
    · simp [hserial, hrefresh, hretry, hexpire, hminimum]
    · simp
  · cases h

theorem length_of_hexDecode {lib : Externals} (hhex : lib.HexPairs) {text : String} {s : Str}
    {bytes : Bytes} (h : orError text (lib.hexDecode s) = .ok bytes) :
    bytes.length = byteLen s / 2 := by
  have := hhex s bytes (orError_eq_ok h)
  omega

theorem length_nameRdata (value : Str) :
    (encodeLabels (nameParts value) ++ [0]).length = nameLen value := by
  simp [nameLen, length_encodeLabels]

/-! ### Record type by record type -/

section recordTypes
variable {lib : Externals} {record : DnsZoneRecord} {rdata : Bytes}

theorem length_encodeRdata_address
    (hty : record.recordType = .a ∨ record.recordType = .aaaa)
    (h : encodeRdata lib record = .ok rdata) : rdata.length = rdataLen lib record := by
  unfold rdataLen
  unfold encodeRdata at h
  rcases hty with hty | hty
  · simp only [hty] at h ⊢
    exact length_of_parseIpv4 (orError_eq_ok h)
  · simp only [hty] at h ⊢
    exact length_of_parseIpv6 (orError_eq_ok h)

theorem length_encodeRdata_name (hty : record.recordType ∈ [.cname, .ns, .ptr])
    (h : encodeRdata lib record = .ok rdata) : rdata.length = rdataLen lib record := by
  unfold rdataLen
  unfold encodeRdata at h
  simp only [List.mem_cons, List.not_mem_nil, or_false] at hty
  rcases hty with hty | hty | hty
  · simp only [hty] at h ⊢
    split_ifs at h
    obtain rfl := Except.ok.inj h
    exact length_nameRdata _
  · simp only [hty] at h ⊢
    split_ifs at h
    obtain rfl := Except.ok.inj h
    exact length_nameRdata _
  · simp only [hty] at h ⊢
    obtain rfl := Except.ok.inj h
    exact length_nameRdata _

theorem length_encodeRdata_hex (hhex : lib.HexPairs)
    (hty : record.recordType ∈ [.nsec, .nsec3, .nsec3param, .ds, .rrsig])
    (h : encodeRdata lib record = .ok rdata) : rdata.length = rdataLen lib record := by
  unfold rdataLen
  unfold encodeRdata at h
  simp only [List.mem_cons, List.not_mem_nil, or_false] at hty
  rcases hty with hty | hty | hty | hty | hty <;>
  · simp only [hty] at h ⊢
    exact length_of_hexDecode hhex h

theorem length_encodeRdata_mx (hty : record.recordType = .mx)
    (h : encodeRdata lib record = .ok rdata) : rdata.length = rdataLen lib record := by
  unfold rdataLen
  unfold encodeRdata at h
  simp only [hty] at h ⊢
  split_ifs at h
  obtain rfl := Except.ok.inj h
  rw [List.append_assoc, List.length_append, length_nameRdata]
  rfl

theorem length_encodeRdata_txt (hty : record.recordType = .txt)
    (h : encodeRdata lib record = .ok rdata) : rdata.length = rdataLen lib record := by
  unfold rdataLen
  unfold encodeRdata at h
  simp only [hty] at h ⊢
  unfold txtLen
  by_cases hnil : record.value = []
  · simp only [hnil, utf8_nil, if_true, Except.ok.injEq] at h ⊢
    rw [← h]
    rfl
  · have hne : utf8 record.value ≠ [] := by
      intro hu
      exact hnil (byteLen_eq_zero.mp (by rw [byteLen, hu]; rfl))
    rw [if_neg hne] at h
    obtain rfl := Except.ok.inj h
    simp only [if_neg hnil]
    exact length_txtChunks _ _ (Nat.le_refl _)

theorem length_encodeRdata_soa (hty : record.recordType = .soa)
    (h : encodeRdata lib record = .ok rdata) : rdata.length = rdataLen lib record := by
  obtain ⟨mname, rname, _, _, _, _, _, _, hparts, numbers, hfive, -, rfl⟩ := encodeRdata_soa hty h
  unfold rdataLen
  simp only [hty]
  rw [hparts, List.length_append, List.length_append, length_flatMap_u32ToBe, hfive]
  rfl

/-- The key is written back as it was read, but for the protocol byte. -/
theorem length_encodeRdata_dnskey (hhex : lib.HexPairs) (hty : record.recordType = .dnskey)
    (h : encodeRdata lib record = .ok rdata) : rdata.length = rdataLen lib record := by
  unfold rdataLen
  unfold encodeRdata at h
  simp only [hty] at h ⊢
  obtain ⟨keyBytes, hkey, h⟩ := bind_eq_ok h
  have hlen := length_of_hexDecode hhex hkey
  split at h
  · split_ifs at h
    obtain rfl := Except.ok.inj h
    simp only [List.length_cons] at hlen
    simp only [List.length_append, length_u16ToBe, List.length_cons, List.length_nil]
    omega
  · cases h

theorem length_encodeRdata_caa (hty : record.recordType = .caa)
    (h : encodeRdata lib record = .ok rdata) : rdata.length = rdataLen lib record := by
  unfold rdataLen
  unfold encodeRdata at h
  simp only [hty] at h ⊢
  split at h
  · next flags tag value hparts =>
    obtain ⟨_, -, h⟩ := orError_bind_eq_ok h
    split_ifs at h
    obtain rfl := Except.ok.inj h
    rw [hparts]
    simp only [caaLen, List.length_append, List.length_cons, length_encodeLabel, length_utf8]
    omega
  · next hparts =>
    split_ifs at h
    obtain rfl := Except.ok.inj h
    -- one field: zero flags and the text as a tag
    rw [caaLen_of_not_three hparts]
    simp only [List.length_cons, length_encodeLabel]
    omega

theorem length_encodeRdata_tlsa (hhex : lib.HexPairs) (hty : record.recordType = .tlsa)
    (h : encodeRdata lib record = .ok rdata) : rdata.length = rdataLen lib record := by
  unfold rdataLen
  unfold encodeRdata at h
  simp only [hty] at h ⊢
  split at h
  · next usage selector matchingType certData hparts =>
    obtain ⟨_, -, h⟩ := orError_bind_eq_ok h
    obtain ⟨_, -, h⟩ := orError_bind_eq_ok h
    obtain ⟨_, -, h⟩ := orError_bind_eq_ok h
    obtain ⟨cert, hcert, h⟩ := bind_eq_ok h
    have hlen := length_of_hexDecode hhex hcert
    obtain rfl := Except.ok.inj h
    rw [hparts]
    simp only [tlsaLen, List.length_cons]
    omega
  · cases h

theorem length_encodeRdata_sshfp (hhex : lib.HexPairs) (hty : record.recordType = .sshfp)
    (h : encodeRdata lib record = .ok rdata) : rdata.length = rdataLen lib record := by
  unfold rdataLen
  unfold encodeRdata at h
  simp only [hty] at h ⊢
  unfold parseSshfpValue at h
  split at h
  · next algorithm fingerprintType rest hparts =>
    obtain ⟨_, -, h⟩ := orError_bind_eq_ok h
    obtain ⟨_, -, h⟩ := orError_bind_eq_ok h
    split_ifs at h
    obtain ⟨fp, hfp, h⟩ := bind_eq_ok h
    have hlen := length_of_hexDecode hhex hfp
    obtain rfl := Except.ok.inj h
    rw [hparts]
    simp only [sshfpLen, List.length_cons]
    omega
  · cases h

end recordTypes

theorem length_encodeRdata {lib : Externals} (hhex : lib.HexPairs) {record : DnsZoneRecord}
    {rdata : Bytes} (h : encodeRdata lib record = .ok rdata) :
    rdata.length = rdataLen lib record := by
  cases hty : record.recordType with
  | a => exact length_encodeRdata_address (.inl hty) h
  | aaaa => exact length_encodeRdata_address (.inr hty) h
  | cname => exact length_encodeRdata_name (by simp [hty]) h
  | ns => exact length_encodeRdata_name (by simp [hty]) h
  | ptr => exact length_encodeRdata_name (by simp [hty]) h
  | mx => exact length_encodeRdata_mx hty h
  | txt => exact length_encodeRdata_txt hty h
  | soa => exact length_encodeRdata_soa hty h
  | nsec => exact length_encodeRdata_hex hhex (by simp [hty]) h
  | nsec3 => exact length_encodeRdata_hex hhex (by simp [hty]) h
  | nsec3param => exact length_encodeRdata_hex hhex (by simp [hty]) h
  | ds => exact length_encodeRdata_hex hhex (by simp [hty]) h
  | rrsig => exact length_encodeRdata_hex hhex (by simp [hty]) h
  | dnskey => exact length_encodeRdata_dnskey hhex hty h
  | caa => exact length_encodeRdata_caa hty h
  | tlsa => exact length_encodeRdata_tlsa hhex hty h
  | sshfp => exact length_encodeRdata_sshfp hhex hty h
  | svcb | https =>
    unfold rdataLen
    unfold encodeRdata at h
    simp only [hty] at h ⊢
    exact length_parseSvcbValue hhex h
  | naptr =>
    unfold rdataLen
    unfold encodeRdata at h
    simp only [hty] at h ⊢
    exact length_parseNaptrValue h
  | opt | other =>
    -- these are not encoded
    unfold encodeRdata at h
    simp only [hty] at h
    cases h

end Synvoid.Dns
