import Synvoid.Dns.ResponseEncoder

/-! # The OPT record of a response, read back

    `build_opt_encoded_record` writes the length of the fixed fields where an
    OPT record has its UDP payload size, so every later field moves by two
    bytes: a reader takes the payload size for extended RCODE and version.
    The size is at least 4096, so the extended RCODE read back is never 0.
-/

namespace Synvoid.Dns

open Synvoid.Framework

/-- The payload size that is announced. -/
def announcedSize (size : UInt16) : UInt16 := if size ≥ 4096 then size else 4096

/-- What reading the OPT record back should give: parsing `packet` at `offset`
    finds the announced size, no extended error, version 0 and the DO flag,
    and the record ends where the packet ends. -/
def OptReadsBack (packet : Bytes) (offset : Nat) (size : UInt16) (dnssecOk : Bool) : Prop :=
  ∃ edns, EdnsOptions.parseFromQuery packet offset = .ok (some edns) ∧
    edns.udpPayloadSize = max size 4096 ∧ edns.extendedRcode = 0 ∧ edns.version = 0 ∧
    edns.dnssecOk = dnssecOk ∧
    offset + 11 + (u16At packet (offset + 9)).toNat = packet.length

/-- The eleven bytes of the record. -/
theorem bytes_buildOptEncodedRecord (size : UInt16) (dnssecOk : Bool) :
    (buildOptEncodedRecord size dnssecOk).bytes =
      [0, 0, 41, 0, 6, UInt8.ofNat ((announcedSize size).toNat / 256),
        UInt8.ofNat ((announcedSize size).toNat % 256), if dnssecOk then 128 else 0, 0, 0, 0] := by
  unfold buildOptEncodedRecord EdnsOptions.buildOptRecord announcedSize
  -- the length of the six bytes is a constant, so only the size and the flag are left
  generalize (if size ≥ 4096 then size else 4096) = udp
  cases dnssecOk with
  | false => simp [u16ToBe]
  | true => simp [u16ToBe]

theorem toNat_announcedSize_ge (size : UInt16) : 4096 ≤ (announcedSize size).toNat := by
  unfold announcedSize
  split
  · next h => exact UInt16.le_iff_toNat_le.mp h
  · decide

/-- The high byte of a 16-bit value, as the parser takes it. -/
theorem toUInt8_shiftRight_u16FromBe (hi lo : UInt8) : (u16FromBe hi lo >>> 8).toUInt8 = hi := by
  have hlo := lo.toNat_lt
  apply UInt8.toNat_inj.mp
  rw [UInt16.toNat_toUInt8, UInt16.toNat_shiftRight, toNat_u16FromBe]
  have hhi := hi.toNat_lt
  simp [Nat.shiftRight_eq_div_pow]
  omega

theorem toUInt8_and_u16FromBe (hi lo : UInt8) : (u16FromBe hi lo &&& 0xFF).toUInt8 = lo := by
  have hlo := lo.toNat_lt
  apply UInt8.toNat_inj.mp
  rw [UInt16.toNat_toUInt8, UInt16.toNat_and, toNat_u16FromBe]
  have hmask : (0xFF : UInt16).toNat = 2 ^ 8 - 1 := rfl
  rw [hmask, Nat.and_two_pow_sub_one_eq_mod]
  omega

/-- **What the record parses to**, behind any prefix: the fixed payload size
    4096, the announced size as extended RCODE and version, and the right DO
    flag. -/
theorem parseFromQuery_optRecord (pre : Bytes) (size : UInt16) (dnssecOk : Bool) :
    EdnsOptions.parseFromQuery (pre ++ (buildOptEncodedRecord size dnssecOk).bytes) pre.length =
      .ok (some {
        udpPayloadSize := 4096
        extendedRcode := UInt8.ofNat ((announcedSize size).toNat / 256)
        version := UInt8.ofNat ((announcedSize size).toNat % 256)
        dnssecOk := dnssecOk
        rdata := {} }) := by
  rw [bytes_buildOptEncodedRecord]
  generalize hhi : UInt8.ofNat ((announcedSize size).toNat / 256) = hi
  generalize hlo : UInt8.ofNat ((announcedSize size).toNat % 256) = lo
  generalize hopt : [0, 0, 41, 0, 6, hi, lo, if dnssecOk then 128 else 0, 0, 0, 0] = opt
  have hlen : (pre ++ opt).length = pre.length + 11 := by simp [← hopt]
  -- the fields at their offsets
  have hname : byteAt (pre ++ opt) pre.length = 0 := by
    rw [← Nat.add_zero pre.length, byteAt_append_right, ← hopt]
    rfl
  have htype : u16At (pre ++ opt) (pre.length + 1) = 41 := by
    rw [u16At_append_right, ← hopt]
    exact (by decide : u16FromBe 0 41 = 41)
  -- where the payload size belongs, the reader finds the length of the fixed fields
  have hudp : u16At (pre ++ opt) (pre.length + 3) = 6 := by
    rw [u16At_append_right, ← hopt]
    exact (by decide : u16FromBe 0 6 = 6)
  have hext : u16At (pre ++ opt) (pre.length + 5) = u16FromBe hi lo := by
    rw [u16At_append_right, ← hopt]
    rfl
  have hflags : u16At (pre ++ opt) (pre.length + 7) = if dnssecOk then 0x8000 else 0 := by
    rw [u16At_append_right, ← hopt]
    cases dnssecOk with
    | false => exact (by decide : u16FromBe 0 0 = 0)
    | true => exact (by decide : u16FromBe 128 0 = 0x8000)
  have hrdlen : u16At (pre ++ opt) (pre.length + 9) = 0 := by
    rw [u16At_append_right, ← hopt]
    exact (by decide : u16FromBe 0 0 = 0)
  have hread : ∀ i, i + 2 ≤ 11 →
      readU16 (pre ++ opt) (pre.length + i) = .ok (u16At (pre ++ opt) (pre.length + i)) :=
    fun i hi => readU16_of_lt (by omega)
  -- 6 is below 4096, so the payload size is the default; RDLENGTH 0 leaves no options
  have hparse : parseOpt (pre ++ opt) (pre.length + 3) =
      .ok { udpPayloadSize := 4096, extendedRcode := hi, version := lo, dnssecOk := dnssecOk,
            rdata := {} } := by
    unfold parseOpt
    simp only [Nat.add_assoc, Nat.reduceAdd, hread 3 (by omega), hread 5 (by omega),
      hread 7 (by omega), hread 9 (by omega), hudp, hext, hflags, hrdlen, bind, Except.bind]
    have hdo : ((if dnssecOk then (0x8000 : UInt16) else 0) &&& 0x8000 != 0) = dnssecOk := by
      cases dnssecOk <;> rfl
    rw [toUInt8_shiftRight_u16FromBe, toUInt8_and_u16FromBe, hdo]
    simp [parseOptions, pure, Except.pure]
  unfold EdnsOptions.parseFromQuery
  rw [if_neg (by omega)]
  unfold parseRecords
  rw [if_pos (by omega), index_of_lt (by omega), hname]
  simp [bind, Except.bind, hread 1 (by omega), htype, hparse, pure, Except.pure]

/-- The packet up to its additional section. -/
def packetBeforeAdditional (answers authority : List EncodedRecord) (queryId flags : UInt16)
    (qname : Str) (qtype : UInt16) : Bytes :=
  u16ToBe queryId ++ u16ToBe flags ++ u16ToBe 1 ++ u16ToBe (UInt16.ofNat answers.length) ++
    u16ToBe (UInt16.ofNat authority.length) ++ u16ToBe 1 ++ buildQuestion qname qtype 1 ++
    answers.flatMap EncodedRecord.bytes ++ authority.flatMap EncodedRecord.bytes

theorem assemblePacket_optRecord (answers authority : List EncodedRecord) (queryId flags : UInt16)
    (qname : Str) (qtype size : UInt16) (dnssecOk : Bool) :
    assemblePacket ⟨answers, authority, [buildOptEncodedRecord size dnssecOk]⟩ queryId flags
      qname qtype =
    packetBeforeAdditional answers authority queryId flags qname qtype ++
      (buildOptEncodedRecord size dnssecOk).bytes := by
  simp [assemblePacket, packetBeforeAdditional]

/-- **The OPT record never reads back.** Whatever the question, the other
    records, the size and the DO flag are, the extended RCODE is wrong. -/
theorem opt_record_never_reads_back (answers authority : List EncodedRecord)
    (queryId flags : UInt16) (qname : Str) (qtype size : UInt16) (dnssecOk : Bool) :
    ¬ OptReadsBack
      (assemblePacket ⟨answers, authority, [buildOptEncodedRecord size dnssecOk]⟩ queryId flags
        qname qtype)
      (packetBeforeAdditional answers authority queryId flags qname qtype).length size
        dnssecOk := by
  intro ⟨edns, hparse, _, hrcode, _⟩
  rw [assemblePacket_optRecord, parseFromQuery_optRecord] at hparse
  simp only [Except.ok.injEq, Option.some.injEq] at hparse
  rw [← hparse] at hrcode
  -- the extended RCODE is the high byte of a number of at least 4096
  have hge := toNat_announcedSize_ge size
  have hlt := (announcedSize size).toNat_lt
  have hzero := congrArg UInt8.toNat hrcode
  rw [UInt8.toNat_ofNat', Nat.mod_eq_of_lt (by omega)] at hzero
  simp at hzero
  omega

/-- A response to `.` without other records: the record announces 4096 bytes
    and reads back with extended RCODE 16. -/
theorem opt_record_misread :
    ¬ OptReadsBack (assemblePacket ⟨[], [], [buildOptEncodedRecord 1232 true]⟩ 1 0x8180 [] 1) 17
      1232 true ∧
    EdnsOptions.parseFromQuery
      (assemblePacket ⟨[], [], [buildOptEncodedRecord 1232 true]⟩ 1 0x8180 [] 1) 17 =
      .ok (some ⟨4096, 16, 0, true, {}⟩) := by
  have hread : EdnsOptions.parseFromQuery
      (assemblePacket ⟨[], [], [buildOptEncodedRecord 1232 true]⟩ 1 0x8180 [] 1) 17 =
      .ok (some ⟨4096, 16, 0, true, {}⟩) := by decide
  refine ⟨?_, hread⟩
  intro ⟨edns, hparse, _, hrcode, _⟩
  rw [hread] at hparse
  simp only [Except.ok.injEq, Option.some.injEq] at hparse
  rw [← hparse] at hrcode
  exact absurd hrcode (by decide)

end Synvoid.Dns
