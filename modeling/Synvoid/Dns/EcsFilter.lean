import Synvoid.Framework.BitOrder
import Synvoid.Framework.IpAddr
import Synvoid.Dns.Edns

/-! # Filtering of the client subnet

    Model of `filter_ecs` (`synvoid-dns/src/edns.rs`) with `is_restricted_ip`
    (`net_policy.rs`) and `dns_ipv4_prefix_mask` (`runtime_config.rs`).

    An IPv4 address is cut to the prefix. Of an IPv6 address a prefix of `p` bits
    keeps `p / 8` segments of 16 bits, so about twice as many bits as it should
    (`bitAt_truncateIpv6`), and all of the address from 64 bits on.
-/

namespace Synvoid.Dns

open Synvoid.Framework

structure EcsFilterConfig where
  enabled : Bool := false
  prefixV4 : UInt8 := 24
  prefixV6 : UInt8 := 48
  allowPrivatePrefix : Bool := false

def isRestrictedV4 (octets : Bytes) : Bool :=
  let a := byteAt octets 0
  let b := byteAt octets 1
  a == 0 || a == 10 || (a == 100 && 64 ≤ b && b ≤ 127) || a == 127 || (a == 169 && b == 254) ||
    (a == 172 && 16 ≤ b && b ≤ 31) || (a == 192 && (b == 0 || b == 168)) ||
    (a == 198 && ((18 ≤ b && b ≤ 19) || b == 51)) || (a == 203 && b == 0) || 224 ≤ a

/-- `is_restricted_ip`. An IPv4-mapped address is judged by its IPv4 address. -/
def isRestrictedIp : IpAddr → Bool
  | .v4 octets => isRestrictedV4 octets
  | .v6 octets =>
      if octets.take 12 = List.replicate 10 0 ++ [0xFF, 0xFF] then isRestrictedV4 (octets.drop 12)
      else
        let first := u16At octets 0
        octets == List.replicate 16 0 || octets == List.replicate 15 0 ++ [1] ||
          first &&& 0xFE00 == 0xFC00 || first &&& 0xFFC0 == 0xFE80 || first &&& 0xFF00 == 0xFF00 ||
          (first == 0x2001 && u16At octets 2 == 0x0DB8)

def dnsIpv4PrefixMask (prefixLen : UInt8) : UInt32 :=
  if prefixLen = 0 then 0
  else if prefixLen ≤ 32 then 0xFFFFFFFF <<< UInt32.ofNat (32 - prefixLen.toNat)
  else 0xFFFFFFFF

def truncateIpv4 (octets : Bytes) (newPrefix : UInt8) : Bytes :=
  u32ToBe (u32At octets 0 &&& dnsIpv4PrefixMask newPrefix)

/-- The segment at `i` of an IPv6 address that is cut. -/
def truncateSegment (newPrefix : UInt8) (i : Nat) (seg : UInt16) : UInt16 :=
  let fullBytes := newPrefix.toNat / 8
  let remainingBits := newPrefix.toNat % 8
  if i < fullBytes then seg
  else if i = fullBytes ∧ remainingBits > 0 then
    seg &&& ~~~((0xFFFF : UInt16) >>> UInt16.ofNat remainingBits)
  else 0

def truncateIpv6 (octets : Bytes) (newPrefix : UInt8) : Bytes :=
  ((segments octets).mapIdx (truncateSegment newPrefix)).flatMap u16ToBe

def EcsFilterConfig.newPrefix (config : EcsFilterConfig) : IpAddr → UInt8
  | .v4 _ => config.prefixV4
  | .v6 _ => config.prefixV6

def truncateAddress (newPrefix : UInt8) : IpAddr → IpAddr
  | .v4 octets => .v4 (truncateIpv4 octets newPrefix)
  | .v6 octets => .v6 (truncateIpv6 octets newPrefix)

/-- A subnet that is kept, with a prefix that is not longer than configured. -/
def shortenSubnet (config : EcsFilterConfig) (subnet : ClientSubnet) : ClientSubnet :=
  let newPrefix := config.newPrefix subnet.address
  if newPrefix < subnet.prefixLen then ⟨truncateAddress newPrefix subnet.address, newPrefix⟩
  else subnet

def filterSubnet (config : EcsFilterConfig) (subnet : ClientSubnet) : Option ClientSubnet :=
  if isRestrictedIp subnet.address && !config.allowPrivatePrefix then none
  else some (shortenSubnet config subnet)

def filterEcs (edns : EdnsOptions) (config : EcsFilterConfig) : EdnsOptions :=
  if config.enabled then
    { edns with
      rdata := { edns.rdata with
        clientSubnet := edns.rdata.clientSubnet.bind (filterSubnet config) } }
  else edns

/-! ### Bits of an address -/

namespace IpAddr

def octets : IpAddr → Bytes
  | .v4 octets => octets
  | .v6 octets => octets

/-- The number of bits. -/
def width : IpAddr → Nat
  | .v4 _ => 32
  | .v6 _ => 128

/-- An address has as many octets as its kind. -/
def Valid (ip : IpAddr) : Prop := 8 * ip.octets.length = ip.width

end IpAddr

/-- `subnet'` is `subnet` cut to its own prefix. -/
def Truncated (subnet subnet' : ClientSubnet) : Prop :=
  ∀ i < subnet.address.width,
    bitAt subnet'.address.octets i =
      (bitAt subnet.address.octets i && decide (i < subnet'.prefixLen.toNat))

theorem testBit_dnsIpv4PrefixMask (newPrefix : UInt8) {i : Nat} (h : i < 32) :
    (dnsIpv4PrefixMask newPrefix).toNat.testBit (31 - i) = decide (i < newPrefix.toNat) := by
  have hsmall : ∀ p : Fin 33, ∀ i : Fin 32,
      (dnsIpv4PrefixMask (UInt8.ofNat p)).toNat.testBit (31 - i) = decide (i.1 < p.1) := by
    decide +kernel
  rcases Nat.lt_or_ge newPrefix.toNat 33 with hlt | hge
  · have hbit := hsmall ⟨newPrefix.toNat, hlt⟩ ⟨i, h⟩
    rwa [UInt8.ofNat_toNat] at hbit
  · have hmask : dnsIpv4PrefixMask newPrefix = 0xFFFFFFFF := by
      unfold dnsIpv4PrefixMask
      rw [if_neg, if_neg]
      · rw [UInt8.le_iff_toNat_le]
        simp
        omega
      · rintro rfl
        simp at hge
    have hones : ∀ i : Fin 32, (0xFFFFFFFF : UInt32).toNat.testBit (31 - i) = true := by decide
    rw [hmask, hones ⟨i, h⟩]
    simp
    omega

/-- An IPv4 address is cut to the prefix. -/
theorem bitAt_truncateIpv4 {octets : Bytes} (hlength : octets.length = 4) (newPrefix : UInt8)
    {i : Nat} (h : i < 32) :
    bitAt (truncateIpv4 octets newPrefix) i =
      (bitAt octets i && decide (i < newPrefix.toNat)) := by
  match octets, hlength with
  | [b₀, b₁, b₂, b₃], _ =>
    have hold : bitAt [b₀, b₁, b₂, b₃] i = (u32FromBe b₀ b₁ b₂ b₃).toNat.testBit (31 - i) := by
      rw [← u32ToBe_u32FromBe, bitAt_u32ToBe _ h]
    rw [truncateIpv4, bitAt_u32ToBe _ h, UInt32.toNat_and, Nat.testBit_and,
      testBit_dnsIpv4PrefixMask newPrefix h, hold]
    rfl

/-- How many bits of an IPv6 address are kept for a prefix. -/
def keptBits (newPrefix : UInt8) : Nat := newPrefix.toNat + 8 * (newPrefix.toNat / 8)

theorem testBit_truncateSegment (newPrefix : UInt8) (k : Nat) (seg : UInt16) {j : Nat}
    (h : j < 16) :
    (truncateSegment newPrefix k seg).toNat.testBit (15 - j) =
      (seg.toNat.testBit (15 - j) && decide (16 * k + j < keptBits newPrefix)) := by
  have hmask : ∀ r : Fin 8, ∀ j : Fin 16,
      (~~~((0xFFFF : UInt16) >>> UInt16.ofNat r)).toNat.testBit (15 - j) = decide (j.1 < r.1) := by
    decide +kernel
  have hkept : keptBits newPrefix =
      16 * (newPrefix.toNat / 8) + newPrefix.toNat % 8 := by
    unfold keptBits
    omega
  unfold truncateSegment
  simp only
  split
  · rw [decide_eq_true (by omega), Bool.and_true]
  · split
    · next hlast =>
      rw [UInt16.toNat_and, Nat.testBit_and,
        hmask ⟨newPrefix.toNat % 8, Nat.mod_lt _ (by decide)⟩ ⟨j, h⟩]
      congr 1
      simp only [decide_eq_decide]
      omega
    · rw [decide_eq_false (by omega), Bool.and_false]
      simp

/-- An IPv6 address keeps more bits than its prefix has. -/
theorem bitAt_truncateIpv6 {octets : Bytes} (hlength : octets.length = 16) (newPrefix : UInt8)
    {i : Nat} (h : i < 128) :
    bitAt (truncateIpv6 octets newPrefix) i =
      (bitAt octets i && decide (i < keptBits newPrefix)) := by
  obtain ⟨hsegments, hcount⟩ := flatMap_segments 8 hlength
  have hold : bitAt octets i = ((segments octets).getD (i / 16) 0).toNat.testBit (15 - i % 16) := by
    conv_lhs => rw [← hsegments]
    exact bitAt_flatMap_u16ToBe _ (by omega)
  have hget : ((segments octets).mapIdx (truncateSegment newPrefix)).getD (i / 16) 0 =
      truncateSegment newPrefix (i / 16) ((segments octets).getD (i / 16) 0) := by
    have hlt : i / 16 < (segments octets).length := by omega
    simp [List.getD_eq_getElem?_getD, hlt]
  rw [truncateIpv6, bitAt_flatMap_u16ToBe _ (by rw [List.length_mapIdx]; omega), hget,
    testBit_truncateSegment _ _ _ (Nat.mod_lt _ (by decide)), hold, Nat.div_add_mod]

/-! ### Truncation -/

/-- The subnet is kept with a shorter prefix. -/
def Shortened (config : EcsFilterConfig) (subnet : ClientSubnet) : Prop :=
  ¬ (isRestrictedIp subnet.address = true ∧ config.allowPrivatePrefix = false) ∧
    config.newPrefix subnet.address < subnet.prefixLen

/-- A subnet that is kept with a shorter prefix is cut. -/
theorem filterSubnet_eq_some {config : EcsFilterConfig} {subnet subnet' : ClientSubnet}
    (h : filterSubnet config subnet = some subnet')
    (hshorter : subnet'.prefixLen < subnet.prefixLen) :
    Shortened config subnet ∧
      subnet' = ⟨truncateAddress (config.newPrefix subnet.address) subnet.address,
        config.newPrefix subnet.address⟩ := by
  unfold filterSubnet at h
  split at h
  · cases h
  · next hkept =>
    obtain rfl := Option.some.inj h
    unfold shortenSubnet at hshorter ⊢
    simp only at hshorter ⊢
    split at hshorter
    · next hlt =>
      rw [if_pos hlt]
      refine ⟨⟨?_, hlt⟩, rfl⟩
      simpa using hkept
    · exact absurd hshorter (Nat.lt_irrefl _)

theorem filterSubnet_of_shortened {config : EcsFilterConfig} {subnet : ClientSubnet}
    (h : Shortened config subnet) :
    filterSubnet config subnet =
      some ⟨truncateAddress (config.newPrefix subnet.address) subnet.address,
        config.newPrefix subnet.address⟩ := by
  unfold filterSubnet shortenSubnet
  rw [if_neg (by simpa using h.1), if_pos h.2]

/-- **Truncation**: a shortened subnet is cut to its prefix exactly if it is an IPv4
    subnet or has no bits where too many are kept. -/
theorem filterEcs_truncates_iff (edns : EdnsOptions) (config : EcsFilterConfig)
    (subnet : ClientSubnet) (henabled : config.enabled = true)
    (hsubnet : edns.rdata.clientSubnet = some subnet) (hvalid : subnet.address.Valid) :
    (∀ subnet', (filterEcs edns config).rdata.clientSubnet = some subnet' →
      subnet'.prefixLen < subnet.prefixLen → Truncated subnet subnet') ↔
    ∀ octets, subnet.address = .v6 octets → Shortened config subnet →
      ∀ i < 128, config.prefixV6.toNat ≤ i → i < keptBits config.prefixV6 →
        bitAt octets i = false := by
  have hfilter : (filterEcs edns config).rdata.clientSubnet = filterSubnet config subnet := by
    simp [filterEcs, henabled, hsubnet]
  rw [hfilter]
  obtain ⟨address, prefixLen⟩ := subnet
  refine ⟨fun h octets haddress hshortened i hi hge hlt => ?_, fun h subnet' hsome hshorter => ?_⟩
  · simp only at haddress
    subst haddress
    have htruncated := h _ (filterSubnet_of_shortened hshortened) hshortened.2 i hi
    have hlength : octets.length = 16 := by
      have : 8 * octets.length = 128 := hvalid
      omega
    have hbit := bitAt_truncateIpv6 hlength config.prefixV6 hi
    rw [decide_eq_true hlt, Bool.and_true] at hbit
    have hcut : bitAt (truncateIpv6 octets config.prefixV6) i =
        (bitAt octets i && decide (i < config.prefixV6.toNat)) := htruncated
    rw [decide_eq_false (Nat.not_lt.mpr hge), Bool.and_false] at hcut
    rw [← hbit, hcut]
  · obtain ⟨hshortened, rfl⟩ := filterSubnet_eq_some hsome hshorter
    intro i hi
    cases address with
    | v4 octets =>
      have hlength : octets.length = 4 := by
        have : 8 * octets.length = 32 := hvalid
        omega
      exact bitAt_truncateIpv4 hlength config.prefixV4 hi
    | v6 octets =>
      have hlength : octets.length = 16 := by
        have : 8 * octets.length = 128 := hvalid
        omega
      have hbit : bitAt (truncateIpv6 octets config.prefixV6) i =
          (bitAt octets i && decide (i < config.prefixV6.toNat)) := by
        rw [bitAt_truncateIpv6 hlength config.prefixV6 hi]
        by_cases hkept : i < keptBits config.prefixV6
        · by_cases hin : i < config.prefixV6.toNat
          · rw [decide_eq_true hkept, decide_eq_true hin]
          · rw [h octets rfl hshortened i hi (Nat.not_lt.mp hin) hkept, Bool.false_and,
              Bool.false_and]
        · have hle : config.prefixV6.toNat ≤ keptBits config.prefixV6 := Nat.le_add_right _ _
          rw [decide_eq_false hkept, decide_eq_false (by omega)]
      exact hbit

/-- The subnet `2001:4860:4860::8888`, with all of its bits. -/
def leakedSubnet : ClientSubnet where
  address := .v6 [0x20, 0x01, 0x48, 0x60, 0x48, 0x60, 0, 0, 0, 0, 0, 0, 0, 0, 0x88, 0x88]
  prefixLen := 128

/-- The same network with a bit behind the first 48. -/
def hostSubnet : ClientSubnet where
  address := .v6 [0x20, 0x01, 0x48, 0x60, 0x48, 0x60, 0x12, 0x34, 0, 0, 0, 0, 0, 0, 0, 1]
  prefixLen := 128

def withSubnet (subnet : ClientSubnet) : EdnsOptions :=
  ⟨1232, 0, 0, false, { clientSubnet := some subnet }⟩

/-- The bits that are kept too many are zero here, and the host part is cut. -/
theorem filterEcs_truncates_dns :
    ∃ subnet', (filterEcs (withSubnet leakedSubnet) { enabled := true }).rdata.clientSubnet =
      some subnet' ∧ subnet'.prefixLen < leakedSubnet.prefixLen ∧
      Truncated leakedSubnet subnet' := by
  have htruncates := (filterEcs_truncates_iff (withSubnet leakedSubnet) { enabled := true }
    leakedSubnet rfl rfl rfl).mpr ?_
  · exact ⟨⟨.v6 [0x20, 0x01, 0x48, 0x60, 0x48, 0x60, 0, 0, 0, 0, 0, 0, 0, 0, 0, 0], 48⟩, by decide,
      by decide, htruncates _ (by decide) (by decide)⟩
  · rintro octets hoctets - i hi hge hlt
    obtain rfl := (IpAddr.v6.inj hoctets)
    have hzero : ∀ i : Fin 128, 48 ≤ i.1 → i.1 < 96 →
        bitAt [0x20, 0x01, 0x48, 0x60, 0x48, 0x60, 0, 0, 0, 0, 0, 0, 0, 0, 0x88, 0x88]
          i = false := by
      decide
    exact hzero ⟨i, hi⟩ hge hlt

/-- With the default prefix of 48 bits the next 48 bits stay in the subnet. -/
theorem filterEcs_leaks_bits :
    ¬ (∀ (edns : EdnsOptions) (config : EcsFilterConfig) (subnet : ClientSubnet),
      config.enabled = true → edns.rdata.clientSubnet = some subnet → subnet.address.Valid →
      ∀ subnet', (filterEcs edns config).rdata.clientSubnet = some subnet' →
        subnet'.prefixLen < subnet.prefixLen → Truncated subnet subnet') := by
  intro h
  have htruncated := h (withSubnet hostSubnet) { enabled := true } hostSubnet rfl rfl rfl
    ⟨.v6 [0x20, 0x01, 0x48, 0x60, 0x48, 0x60, 0x12, 0x34, 0, 0, 0, 0, 0, 0, 0, 0], 48⟩ (by decide)
    (by decide)
  exact absurd (htruncated 51 (by decide)) (by decide)

end Synvoid.Dns
