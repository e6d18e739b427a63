import Mathlib.Logic.Relation
import Synvoid.Dns.Edns

/-! # When EDNS parsing stays in range

    The parser trusts the lengths in the packet: RDLENGTH and the option
    lengths are compared with each other, never with the packet. So it may
    read past the end and panic. Here is the exact condition on the packet
    under which it does not.

    The condition follows the chain of records and the chain of options as
    the lengths in the packet lay them out, without running the parser: an
    OPT record in the chain has its 11 fixed bytes in the packet
    (`RecordNext`), and so has every option in its RDATA the bytes its kind
    needs (`OptionFits`).
-/

namespace Synvoid.Dns

open Synvoid.Framework

/-! ## Section 1: What an option needs -/

/-- Client subnet data at `r`: family, prefix length and scope are in the
    packet, and so is the address, which is no longer than its family's. -/
def SubnetFits (query : Bytes) (stop r : Nat) : Prop :=
  r + 4 ≤ query.length ∧
  (byteAt query (r + 3) = 0 → byteAt query (r + 2) > 0 →
    r + 4 + addrBytes (byteAt query (r + 2)) ≤ stop →
    (u16At query r = 1 → addrBytes (byteAt query (r + 2)) ≤ 4 ∧
      r + 4 + addrBytes (byteAt query (r + 2)) ≤ query.length) ∧
    (u16At query r = 2 → addrBytes (byteAt query (r + 2)) ≤ 16 ∧
      r + 4 + addrBytes (byteAt query (r + 2)) ≤ query.length))

/-- The data of an option, at `r`, is in the packet as far as it is read. -/
structure DataFits (query : Bytes) (stop r : Nat) (code len : UInt16) : Prop where
  clientSubnet : code = ednsOptionClientSubnet → len ≥ 4 → SubnetFits query stop r
  keytag : code = ednsOptionKeytag → len ≥ 2 → r + 2 ≤ query.length
  cookie : code = ednsOptionCookie → len ≥ 8 → r + min len.toNat 32 ≤ query.length
  keepalive : code = ednsOptionKeepalive → len ≥ 2 → r + 2 ≤ query.length
  ede : code = ednsOptionEde → len ≥ 2 → r + len.toNat ≤ query.length

/-- The option at `p` is in the packet as far as it is read. -/
def OptionFits (query : Bytes) (stop p : Nat) : Prop :=
  p + 4 ≤ query.length ∧
  DataFits query stop (p + 4) (u16At query p) (u16At query (p + 2))

section data
variable {β : Type} {query : Bytes} {stop r : Nat} {acc : OptRdata}

theorem safe_readAddress_bind (width pos n : Nat) (f : Bytes → Checked β) :
    Safe (readAddress query width pos n >>= f) ↔
      (n ≤ width ∧ pos + n ≤ query.length) ∧
        Safe (f (slice query pos (pos + n) ++ (List.replicate width 0).drop n)) := by
  unfold readAddress
  rw [bind_assoc, safe_range_bind, safe_copyFromSlice_bind, List.length_replicate]
  constructor
  · rintro ⟨⟨-, hlen⟩, ⟨hle, -⟩, hf⟩
    exact ⟨⟨hle, hlen⟩, hf⟩
  · rintro ⟨⟨hle, hlen⟩, hf⟩
    refine ⟨⟨Nat.le_add_right _ _, hlen⟩, ⟨hle, ?_⟩, hf⟩
    rw [length_slice _ _ _ hlen]
    omega

theorem parseClientSubnet_safe :
    Safe (parseClientSubnet query stop r acc) ↔ SubnetFits query stop r := by
  unfold parseClientSubnet SubnetFits
  -- three fixed accesses, then the address of either family; the last bound implies the others
  rw [safe_readU16_bind, safe_index_bind, safe_index_bind, safe_ite, safe_ite, safe_ite]
  simp only [safe_readAddress_bind, safe_pure, and_true, implies_true]
  constructor
  · rintro ⟨-, -, hlen, hread⟩
    refine ⟨hlen, fun hscope hfront hstop => ?_⟩
    obtain ⟨hv4, hv6⟩ := hread ⟨hscope, hfront, hstop⟩
    exact ⟨hv4, fun hfam => hv6 (by rw [hfam]; decide) hfam⟩
  · rintro ⟨hlen, hread⟩
    refine ⟨by omega, by omega, hlen, ?_⟩
    rintro ⟨hscope, hfront, hstop⟩
    obtain ⟨hv4, hv6⟩ := hread hscope hfront hstop
    exact ⟨hv4, fun _ => hv6⟩

theorem parseCookie_safe {len : Nat} (hlen : 8 ≤ len) :
    Safe (parseCookie query r len acc) ↔ r + min len 32 ≤ query.length := by
  unfold parseCookie
  simp only [safe_range_bind, safe_copyFromSlice_bind, safe_ite, safe_pure, and_true,
    List.length_replicate, implies_true]
  constructor
  · rintro ⟨⟨-, hclient⟩, -, hserver⟩
    -- the client cookie needs 8 bytes, the server cookie up to 24 more
    by_cases hlong : len > 8
    · have := (hserver hlong).1.2
      omega
    · omega
  · intro hfits
    refine ⟨⟨by omega, by omega⟩, ⟨Nat.le_refl _, ?_⟩, fun hlong => ⟨⟨by omega, by omega⟩,
      Nat.le_refl _, ?_⟩⟩
    · rw [length_slice _ _ _ (by omega)]
      omega
    · rw [length_slice _ _ _ (by omega)]
      omega

theorem decode_safe (data : Bytes) : Safe (ExtendedDnsErrorOption.decode data) := by
  unfold ExtendedDnsErrorOption.decode
  rw [safe_ite]
  refine ⟨fun _ => safe_pure _, fun hlong => ?_⟩
  rw [safe_readU16_bind]
  exact ⟨by omega, safe_pure _⟩

/-- **One option.** Its branch stays in range exactly if the data fits. -/
theorem parseOptionData_safe {code len : UInt16} :
    Safe (parseOptionData query stop r code len acc) ↔ DataFits query stop r code len := by
  unfold parseOptionData
  -- the branches exclude each other by the option code
  by_cases hsub : code = ednsOptionClientSubnet ∧ len ≥ 4
  · rw [if_pos hsub, parseClientSubnet_safe]
    obtain ⟨rfl, hlen⟩ := hsub
    refine ⟨fun h => ⟨fun _ _ => h, ?_, ?_, ?_, ?_⟩, fun h => h.clientSubnet rfl hlen⟩ <;>
      exact fun hcode => absurd hcode (by decide)
  rw [if_neg hsub]
  by_cases hkey : code = ednsOptionKeytag ∧ len ≥ 2
  · rw [if_pos hkey, safe_readU16_bind]
    obtain ⟨rfl, hlen⟩ := hkey
    refine ⟨fun h => ⟨?_, fun _ _ => h.1, ?_, ?_, ?_⟩,
      fun h => ⟨h.keytag rfl hlen, safe_pure _⟩⟩ <;>
      exact fun hcode => absurd hcode (by decide)
  rw [if_neg hkey]
  by_cases hcookie : code = ednsOptionCookie ∧ len ≥ 8
  · obtain ⟨rfl, hlen⟩ := hcookie
    have hnat : 8 ≤ len.toNat := UInt16.le_iff_toNat_le.mp hlen
    rw [if_pos ⟨rfl, hlen⟩, parseCookie_safe hnat]
    refine ⟨fun h => ⟨?_, ?_, fun _ _ => h, ?_, ?_⟩, fun h => h.cookie rfl hlen⟩ <;>
      exact fun hcode => absurd hcode (by decide)
  rw [if_neg hcookie]
  by_cases hkeep : code = ednsOptionKeepalive ∧ len ≥ 2
  · rw [if_pos hkeep, safe_readU16_bind]
    obtain ⟨rfl, hlen⟩ := hkeep
    refine ⟨fun h => ⟨?_, ?_, ?_, fun _ _ => h.1, ?_⟩,
      fun h => ⟨h.keepalive rfl hlen, safe_pure _⟩⟩ <;> exact fun hcode => absurd hcode (by decide)
  rw [if_neg hkeep]
  by_cases hede : code = ednsOptionEde ∧ len ≥ 2
  · rw [if_pos hede, safe_range_bind]
    obtain ⟨rfl, hlen⟩ := hede
    constructor
    · rintro ⟨⟨-, hin⟩, -⟩
      refine ⟨?_, ?_, ?_, ?_, fun _ _ => hin⟩ <;> exact fun hcode => absurd hcode (by decide)
    · intro h
      obtain ⟨ede, hdecode⟩ := decode_safe (slice query r (r + len.toNat))
      exact ⟨⟨by omega, h.ede rfl hlen⟩, (safe_bind _ _).mpr ⟨ede, hdecode, safe_pure _⟩⟩
  rw [if_neg hede]
  constructor
  · intro _
    exact ⟨fun hc hl => absurd ⟨hc, hl⟩ hsub, fun hc hl => absurd ⟨hc, hl⟩ hkey,
      fun hc hl => absurd ⟨hc, hl⟩ hcookie, fun hc hl => absurd ⟨hc, hl⟩ hkeep,
      fun hc hl => absurd ⟨hc, hl⟩ hede⟩
  · intro _
    split <;> exact safe_pure _

end data

/-! ## Section 2: The chain of options -/

/-- The next option, if there is room for another header before `stop`. -/
def OptionNext (query : Bytes) (stop p p' : Nat) : Prop :=
  p + 4 ≤ stop ∧ p' = p + 4 + (u16At query (p + 2)).toNat

/-- Every option in the chain from `start` to `stop` fits the packet. -/
def OptionsFit (query : Bytes) (stop start : Nat) : Prop :=
  ∀ p, Relation.ReflTransGen (OptionNext query stop) start p → p + 4 ≤ stop →
    OptionFits query stop p

/-- A property of a chain, from its head. -/
theorem optionsFit_iff {query : Bytes} {stop start : Nat} (h : start + 4 ≤ stop) :
    OptionsFit query stop start ↔ OptionFits query stop start ∧
      OptionsFit query stop (start + 4 + (u16At query (start + 2)).toNat) := by
  constructor
  · intro hfit
    exact ⟨hfit start .refl h, fun p hp => hfit p (.head ⟨h, rfl⟩ hp)⟩
  · rintro ⟨hhead, hrest⟩ p hp
    rcases Relation.ReflTransGen.cases_head hp with rfl | ⟨p', ⟨-, rfl⟩, hp'⟩
    · exact fun _ => hhead
    · exact hrest p hp'

/-- **Run lemma of the option loop.** -/
theorem parseOptions_safe (query : Bytes) (stop fuel start : Nat) (acc : OptRdata)
    (hfuel : stop - start < fuel) :
    Safe (parseOptions query stop fuel start acc) ↔ OptionsFit query stop start := by
  -- an option takes at least its four header bytes, so the fuel decreases with the rest
  induction fuel generalizing start acc with
  | zero => omega
  | succ fuel ih =>
    unfold parseOptions
    by_cases hroom : start + 4 ≤ stop
    · rw [if_pos hroom, safe_readU16_bind, safe_readU16_bind, safe_bind, optionsFit_iff hroom]
      -- whether the rest is safe does not depend on what was read so far
      have hnext : ∀ acc, Safe (parseOptions query stop fuel
          (start + 4 + (u16At query (start + 2)).toNat) acc) ↔
          OptionsFit query stop (start + 4 + (u16At query (start + 2)).toNat) :=
        fun acc => ih _ acc (by omega)
      constructor
      · rintro ⟨-, hlen, acc', hacc', hrest⟩
        exact ⟨⟨hlen, parseOptionData_safe.mp ⟨acc', hacc'⟩⟩, (hnext acc').mp hrest⟩
      · rintro ⟨⟨hlen, hdata⟩, hrest⟩
        obtain ⟨acc', hacc'⟩ : Safe (parseOptionData query stop (start + 4) (u16At query start)
            (u16At query (start + 2)) acc) := parseOptionData_safe.mpr hdata
        exact ⟨by omega, hlen, acc', hacc', (hnext acc').mpr hrest⟩
    · rw [if_neg hroom]
      refine ⟨fun _ p hp hp' => ?_, fun _ => safe_pure _⟩
      rcases Relation.ReflTransGen.cases_head hp with rfl | ⟨p', ⟨hroom', -⟩, -⟩
      · exact absurd hp' hroom
      · exact absurd hroom' hroom

/-! ## Section 3: The chain of records -/

/-- A record of the chain at `p`: there is room for ten bytes and its name is
    the root. -/
def RecordAt (query : Bytes) (p : Nat) : Prop := p + 10 ≤ query.length ∧ byteAt query p = 0

/-- The next record behind one that is not an OPT record, as its length field
    has it. -/
def RecordNext (query : Bytes) (p p' : Nat) : Prop :=
  RecordAt query p ∧ u16At query (p + 1) ≠ 41 ∧ p' = p + 5 + (u16At query (p + 3)).toNat

/-- An OPT record at `p` has its fixed part in the packet, and its options
    fit. -/
def OptFits (query : Bytes) (p : Nat) : Prop :=
  p + 11 ≤ query.length ∧
  OptionsFit query (p + 11 + (u16At query (p + 9)).toNat) (p + 11)

/-- The chain of records from `start` meets no OPT record that does not fit
    the packet. -/
def RecordsFit (query : Bytes) (start : Nat) : Prop :=
  ∀ p, Relation.ReflTransGen (RecordNext query) start p → RecordAt query p →
    u16At query (p + 1) = 41 → OptFits query p

theorem parseOpt_safe {query : Bytes} {p : Nat} :
    Safe (parseOpt query (p + 3)) ↔ OptFits query p := by
  unfold parseOpt OptFits
  rw [safe_readU16_bind, safe_readU16_bind, safe_readU16_bind, safe_readU16_bind, safe_bind]
  have hopts := parseOptions_safe query (p + 11 + (u16At query (p + 9)).toNat)
    ((u16At query (p + 9)).toNat + 1) (p + 11) {} (by omega)
  constructor
  · rintro ⟨-, -, -, hlen, rdata, hrdata, -⟩
    exact ⟨by omega, hopts.mp ⟨rdata, hrdata⟩⟩
  · rintro ⟨hlen, hfit⟩
    obtain ⟨rdata, hrdata⟩ := hopts.mpr hfit
    exact ⟨by omega, by omega, by omega, by omega, rdata, hrdata, safe_pure _⟩

/-- **Run lemma of the record loop.** -/
theorem parseRecords_safe {query : Bytes} (fuel start : Nat) (hfuel : query.length - start < fuel) :
    Safe (parseRecords query fuel start) ↔ RecordsFit query start := by
  induction fuel generalizing start with
  | zero => omega
  | succ fuel ih =>
    unfold parseRecords
    by_cases hrec : RecordAt query start
    · obtain ⟨hroom, hname⟩ := hrec
      rw [if_pos hroom, safe_index_bind, if_neg (not_not.mpr hname), safe_readU16_bind]
      by_cases hopt : u16At query (start + 1) = 41
      · -- an OPT record ends the chain
        rw [if_neg (not_not.mpr hopt), safe_bind]
        constructor
        · rintro ⟨-, -, edns, hedns, -⟩ p hp hp'
          rcases Relation.ReflTransGen.cases_head hp with rfl | ⟨p', ⟨-, hne, -⟩, -⟩
          · exact fun _ => parseOpt_safe.mp ⟨edns, hedns⟩
          · exact absurd hopt hne
        · intro hfit
          obtain ⟨edns, hedns⟩ := parseOpt_safe.mpr (hfit start .refl ⟨hroom, hname⟩ hopt)
          exact ⟨by omega, by omega, edns, hedns, safe_pure _⟩
      · -- any other record is skipped, by at least five bytes
        rw [if_pos hopt, safe_readU16_bind, ih _ (by omega)]
        constructor
        · rintro ⟨-, -, -, hrest⟩ p hp
          rcases Relation.ReflTransGen.cases_head hp with rfl | ⟨p', ⟨-, -, rfl⟩, hp'⟩
          · exact fun _ h => absurd h hopt
          · exact hrest p hp'
        · intro hfit
          exact ⟨by omega, by omega, by omega,
            fun p hp => hfit p (.head ⟨⟨hroom, hname⟩, hopt, rfl⟩ hp)⟩
    · -- the loop ends: no room, or a name that is not the root
      constructor
      · intro _ p hp hp'
        rcases Relation.ReflTransGen.cases_head hp with rfl | ⟨p', ⟨hrec', -⟩, -⟩
        · exact absurd hp' hrec
        · exact absurd hrec' hrec
      · intro _
        rw [safe_ite]
        refine ⟨fun hroom => ?_, fun _ => safe_pure _⟩
        rw [safe_index_bind, if_pos (fun hname => hrec ⟨hroom, hname⟩)]
        exact ⟨by omega, safe_pure _⟩

/-! ## Section 4: The whole packet -/

theorem skipName_safe (query : Bytes) (fuel pos : Nat) : Safe (skipName query fuel pos) := by
  induction fuel generalizing pos with
  | zero => exact safe_pure _
  | succ fuel ih =>
    unfold skipName
    rw [safe_ite]
    refine ⟨fun hlt => ?_, fun _ => safe_pure _⟩
    rw [safe_index_bind, safe_ite]
    exact ⟨hlt, fun _ => safe_pure _, fun _ => ih _⟩

theorem skipQuestions_safe (query : Bytes) (qdcount pos : Nat) :
    Safe (skipQuestions query qdcount pos) := by
  induction qdcount generalizing pos with
  | zero => exact safe_pure _
  | succ qdcount ih =>
    unfold skipQuestions
    rw [safe_bind]
    obtain ⟨pos', hpos'⟩ := skipName_safe query (query.length + 1) pos
    exact ⟨pos', hpos', ih _⟩

/-- What the packet must be like: if it has a header and at least eleven bytes
    behind its questions, the records from there on fit. -/
def EdnsFits (query : Bytes) : Prop :=
  12 ≤ query.length → ∀ qdEnd, skipQuestions query (u16At query 4).toNat 12 = .ok qdEnd →
    qdEnd + 11 ≤ query.length → RecordsFit query qdEnd

/-- **EDNS parsing stays in range** exactly for packets whose OPT record and
    options fit. -/
theorem parse_edns_in_range_iff (query : Bytes) :
    Safe (parseEdnsOptions query) ↔ EdnsFits query := by
  unfold parseEdnsOptions EdnsFits
  rw [safe_ite]
  -- skipping the questions never panics, so the chain has a start
  by_cases hheader : query.length < 12
  · exact ⟨fun _ h => absurd h (by omega),
      fun _ => ⟨fun _ => safe_pure _, fun h => absurd hheader h⟩⟩
  · obtain ⟨qdEnd, hqd⟩ := skipQuestions_safe query (u16At query 4).toNat 12
    rw [safe_readU16_bind, safe_bind]
    have hparse : Safe (EdnsOptions.parseFromQuery query qdEnd) ↔
        (qdEnd + 11 ≤ query.length → RecordsFit query qdEnd) := by
      unfold EdnsOptions.parseFromQuery
      rw [safe_ite, parseRecords_safe _ _ (by omega)]
      constructor
      · exact fun h hlen => h.2 (by omega)
      · exact fun h => ⟨fun _ => safe_pure _, fun hlen => h (by omega)⟩
    constructor
    · rintro ⟨-, hsafe⟩ - pos hpos
      obtain ⟨-, pos', hpos', hrest⟩ := hsafe hheader
      have hsame : pos' = qdEnd := Except.ok.inj (hpos'.symm.trans hqd)
      have hsame' : pos = qdEnd := Except.ok.inj (hpos.symm.trans hqd)
      rw [hsame']
      exact hparse.mp (hsame ▸ hrest)
    · intro hfit
      refine ⟨fun _ => safe_pure _, fun _ => ⟨by omega, qdEnd, hqd, ?_⟩⟩
      exact hparse.mpr (hfit (by omega) qdEnd hqd)

/-- A query whose OPT record ends in a key tag option of two bytes that are
    not there: the parser reads past the end. -/
theorem parse_edns_panics :
    parseEdnsOptions
      ([0, 1, 0, 0, 0, 0, 0, 0, 0, 0, 0, 1] ++ [0, 0, 41, 16, 0, 0, 0, 0, 0, 0, 6] ++
        [0, 0, 0, 2]) = .error (.index 27 27) := by
  decide

end Synvoid.Dns
