import Synvoid.Jail.Wire

/-! # Admitted requests and their frames

    `validate` bounds a WASM module by 8 MiB, and `encode_request` bounds the
    whole payload by the same 8 MiB. So a module of nearly this size passes the
    check and cannot be sent, as its id, its digest and the other fields take
    some bytes too (`largest_module_does_not_fit`). All other operations fit,
    with the largest fields that `validate` lets through.
-/

namespace Synvoid.Jail

open Synvoid.Framework Synvoid.Framework.Postcard

/-! ## Section 1: What admission bounds -/

theorem validateId_ok {id : Str} {what : String} (h : validateId id what = .ok ()) :
    byteLen id ≤ jailMaxIdLen := by
  simp only [validateId, then_eq_ok, rejectIf_ok, not_or, Nat.not_lt] at h
  exact h.1.2

theorem validateDigestHex_ok {hex : Str} (h : validateDigestHex hex = .ok ()) :
    byteLen hex = 64 := by
  simp only [validateDigestHex, rejectIf_ok, not_or, not_not] at h
  exact h.1

structure WasmLoad.Bounded (l : WasmLoad) : Prop where
  moduleId : byteLen l.moduleId ≤ jailMaxIdLen
  digest : byteLen l.digestSha256Hex = 64
  wasmBytes : l.wasmBytes.length ≤ jailMaxModuleBytes

theorem WasmLoad.bounded_of_validate {l : WasmLoad} (h : l.validate = .ok ()) : l.Bounded := by
  simp only [WasmLoad.validate, then_eq_ok, rejectIf_ok, Nat.not_lt] at h
  obtain ⟨hid, hdigest, hbytes, -⟩ := h
  exact ⟨validateId_ok hid, validateDigestHex_ok hdigest, hbytes⟩

structure WasmInvoke.Bounded (i : WasmInvoke) : Prop where
  moduleId : byteLen i.moduleId ≤ jailMaxIdLen
  method : byteLen i.method ≤ jailMaxMethodLen
  uri : byteLen i.uri ≤ jailMaxUriLen
  headers : i.headers.length ≤ jailMaxHeaders
  name : ∀ header ∈ i.headers, byteLen header.1 ≤ jailMaxHeaderNameLen
  value : ∀ header ∈ i.headers, byteLen header.2 ≤ jailMaxHeaderValueLen
  body : i.body.length ≤ jailMaxInvokeInputBytes

theorem WasmInvoke.bounded_of_validate {i : WasmInvoke} (h : i.validate = .ok ()) : i.Bounded := by
  simp only [WasmInvoke.validate, then_eq_ok, rejectIf_ok, not_or, Nat.not_lt, not_exists,
    not_and] at h
  obtain ⟨hid, hmethod, huri, hcount, hheaders, hinput⟩ := h
  exact
    { moduleId := validateId_ok hid
      method := hmethod.2
      uri := huri
      headers := hcount
      name := fun header hmem => (hheaders header hmem).2.1
      value := fun header hmem => (hheaders header hmem).2.2
      body := by omega }

theorem YaraLoadRules.bounded_of_validate {l : YaraLoadRules} (h : l.validate = .ok ()) :
    byteLen l.rulesId ≤ jailMaxIdLen ∧ byteLen l.digestSha256Hex = 64 ∧
      byteLen l.rulesText ≤ jailMaxRulesBytes := by
  simp only [YaraLoadRules.validate, then_eq_ok, rejectIf_ok, Nat.not_lt] at h
  exact ⟨validateId_ok h.1, validateDigestHex_ok h.2.1, h.2.2⟩

theorem YaraScan.bounded_of_validate {s : YaraScan} (h : s.validate = .ok ()) :
    byteLen s.rulesId ≤ jailMaxIdLen ∧ s.data.length ≤ jailMaxScanInputBytes := by
  simp only [YaraScan.validate, then_eq_ok, rejectIf_ok, Nat.not_lt] at h
  exact ⟨validateId_ok h.1, h.2⟩

/-! ## Section 2: Sizes -/

/-- The bytes of a request with a module, field by field. -/
def wasmLoadBytes (id : UInt64) (l : WasmLoad) : Nat :=
  -- the magic, the version, the id and the variant
  5 + 1 + varintLen id.toNat + 1 +
  (varintLen (byteLen l.moduleId) + byteLen l.moduleId) + 65 +
  (varintLen l.wasmBytes.length + l.wasmBytes.length) + varintLen l.fuel.toNat +
  (1 + l.memoryPages.elim 0 fun pages => varintLen pages.toNat) + varintLen l.timeoutMs.toNat + 4

/-- A module is not all of its request. -/
theorem length_lt_wasmLoadBytes (id : UInt64) (l : WasmLoad) :
    l.wasmBytes.length < wasmLoadBytes id l := by
  unfold wasmLoadBytes
  omega

/-- The operations whose request fits a frame. -/
def FitsFrame (id : UInt64) : JailOperation → Prop
  | .wasmLoad load => wasmLoadBytes id load ≤ jailMaxFrameBytes
  | _ => True

theorem length_putRequest (id : UInt64) (op : JailOperation) :
    (putRequest (.new id op)).length = 5 + 1 + varintLen id.toNat + (putOperation op).length := by
  have hmagic : (putU32 jailMagic).length = 5 := by decide
  have hversion : (putU16 jailProtocolVersion).length = 1 := by decide
  simp only [putRequest, JailRequest.new, List.length_append, hmagic, hversion, length_putU64]

theorem length_putCapabilities (c : JailHookCapabilities) : (putCapabilities c).length = 4 := rfl

theorem length_putPages (pages : Option UInt32) :
    (putOption putU32 pages).length = 1 + pages.elim 0 fun pages => varintLen pages.toNat := by
  cases pages with
  | none => rfl
  | some pages => simp [putOption, length_putU32, Nat.add_comm]

/-- A field with a bounded length. -/
theorem length_putBytes_le {b : Bytes} {k : Nat} (hk : 0 < k) (hmax : k ≤ 8)
    (h : b.length < 128 ^ k) : (putBytes b).length ≤ k + b.length := by
  have hlt : b.length < 18446744073709551616 := by
    refine Nat.lt_of_lt_of_le h (Nat.le_trans (Nat.pow_le_pow_right (by decide) hmax) (by decide))
  rw [length_putBytes hlt]
  exact Nat.add_le_add_right (varintLen_le hk h) _

theorem length_putId_le {id : Str} (h : byteLen id ≤ jailMaxIdLen) : (putStr id).length ≤ 130 := by
  have hlen := length_putBytes_le (b := utf8 id) (k := 2) (by decide) (by decide)
    (Nat.lt_of_le_of_lt h (by decide))
  exact Nat.le_trans hlen (Nat.add_le_add_left h 2)

theorem length_putDigest {hex : Str} (h : byteLen hex = 64) : (putStr hex).length = 65 := by
  rw [length_putStr (by rw [h]; decide), h]
  decide

theorem length_putRequest_wasmLoad {id : UInt64} {l : WasmLoad} (h : l.Bounded) :
    (putRequest (.new id (.wasmLoad l))).length = wasmLoadBytes id l := by
  have hid := length_putStr (Nat.lt_of_le_of_lt h.moduleId (by decide))
  have hbytes := length_putBytes (Nat.lt_of_le_of_lt h.wasmBytes (by decide))
  have hvariant : (putU32 2).length = 1 := by decide
  rw [length_putRequest]
  simp only [putOperation, putWasmLoad, List.length_append, hid, hbytes, hvariant,
    length_putDigest h.digest, length_putU64, length_putPages, length_putCapabilities,
    wasmLoadBytes]
  omega

theorem length_putHeaders_le {i : WasmInvoke} (h : i.Bounded) :
    (putHeaders i.headers).length ≤ 1057089 := by
  have hheader : ∀ header ∈ i.headers, (putPair putStr putStr header).length ≤ 16517 := by
    intro header hmem
    have hname := h.name header hmem
    have hvalue := h.value header hmem
    have hname' := length_putBytes_le (b := utf8 header.1) (k := 2) (by decide) (by decide)
      (Nat.lt_of_le_of_lt hname (by decide))
    have hvalue' := length_putBytes_le (b := utf8 header.2) (k := 3) (by decide) (by decide)
      (Nat.lt_of_le_of_lt hvalue (by decide))
    rw [length_utf8] at hname' hvalue'
    simp only [putPair, putStr, List.length_append]
    simp only [jailMaxHeaderNameLen, jailMaxHeaderValueLen] at hname hvalue
    omega
  have hall := length_flatMap_le hheader
  have hcount := h.headers
  have hlen : (putLen i.headers.length).length ≤ 1 := by
    rw [putLen, length_putVarint (Nat.lt_of_le_of_lt hcount (by decide)) (by decide)]
    exact varintLen_le (by decide) (Nat.lt_of_le_of_lt hcount (by decide))
  simp only [jailMaxHeaders] at hcount
  rw [putHeaders, putSeq, List.length_append]
  omega

/-- All operations without a module are far below the limit. -/
theorem length_putOperation_le {op : JailOperation} (h : op.validate = .ok ())
    (hload : ∀ l, op ≠ .wasmLoad l) : (putOperation op).length ≤ 4194700 := by
  have hindex : ∀ n : UInt32, n.toNat < 128 → (putU32 n).length = 1 := by
    intro n hn
    rw [length_putU32, varintLen, Nat.log_of_lt hn]
  cases op with
  | ping => decide
  | shutdown => decide
  | wasmLoad l => exact absurd rfl (hload l)
  | wasmInvoke i =>
    have hbound := WasmInvoke.bounded_of_validate h
    have hid := length_putId_le hbound.moduleId
    have hmethod := length_putBytes_le (b := utf8 i.method) (k := 1) (by decide) (by decide)
      (Nat.lt_of_le_of_lt hbound.method (by decide))
    have huri := length_putBytes_le (b := utf8 i.uri) (k := 2) (by decide) (by decide)
      (Nat.lt_of_le_of_lt hbound.uri (by decide))
    have hbody := length_putBytes_le (b := i.body) (k := 3) (by decide) (by decide)
      (Nat.lt_of_le_of_lt hbound.body (by decide))
    have hheaders := length_putHeaders_le hbound
    obtain ⟨-, hmethod', huri', -, -, -, hbody'⟩ := hbound
    simp only [jailMaxMethodLen, jailMaxUriLen, jailMaxInvokeInputBytes] at hmethod' huri' hbody'
    rw [length_utf8] at hmethod huri
    simp only [putOperation, putWasmInvoke, List.length_append, hindex 3 (by decide)]
    simp only [putStr] at hid hmethod huri ⊢
    omega
  | wasmUnload moduleId =>
    have hid := length_putId_le (validateId_ok h)
    simp only [putOperation, List.length_append, hindex 4 (by decide)]
    omega
  | yaraLoadRules l =>
    obtain ⟨hid, hdigest, htext⟩ := YaraLoadRules.bounded_of_validate h
    have hid' := length_putId_le hid
    have htext' := length_putBytes_le (b := utf8 l.rulesText) (k := 4) (by decide) (by decide)
      (Nat.lt_of_le_of_lt htext (by decide))
    rw [length_utf8] at htext'
    simp only [jailMaxRulesBytes] at htext
    simp only [putOperation, putYaraLoadRules, List.length_append, hindex 5 (by decide),
      length_putDigest hdigest]
    simp only [putStr] at hid' htext' ⊢
    omega
  | yaraScan s =>
    obtain ⟨hid, hdata⟩ := YaraScan.bounded_of_validate h
    have hid' := length_putId_le hid
    have hdata' := length_putBytes_le (b := s.data) (k := 4) (by decide) (by decide)
      (Nat.lt_of_le_of_lt hdata (by decide))
    simp only [jailMaxScanInputBytes] at hdata
    simp only [putOperation, putYaraScan, List.length_append, hindex 6 (by decide)]
    omega
  | yaraUnload rulesId =>
    have hid := length_putId_le (validateId_ok h)
    simp only [putOperation, List.length_append, hindex 7 (by decide)]
    omega

/-- The payload of an admitted request is within the limit exactly if the
    operation fits. -/
theorem length_putRequest_le_iff (id : UInt64) {op : JailOperation} (h : op.validate = .ok ()) :
    (putRequest (.new id op)).length ≤ jailMaxFrameBytes ↔ FitsFrame id op := by
  by_cases hload : ∃ l, op = .wasmLoad l
  · obtain ⟨l, rfl⟩ := hload
    rw [length_putRequest_wasmLoad (WasmLoad.bounded_of_validate h)]
    rfl
  · have hne : ∀ l, op ≠ .wasmLoad l := fun l heq => hload ⟨l, heq⟩
    have hop := length_putOperation_le h hne
    have hid : varintLen id.toNat ≤ 10 :=
      varintLen_le (by decide) (Nat.lt_of_lt_of_le id.toNat_lt (by decide))
    constructor
    · intro _
      cases op <;> first | trivial | exact absurd rfl (hne _)
    · intro _
      rw [length_putRequest]
      simp only [jailMaxFrameBytes]
      omega

/-! ## Section 3: Requests that fit -/

/-- **Which admitted requests can be sent**: exactly those that fit a frame. Such
    a frame is read back as the same request. -/
theorem request_sent_iff_fits {id : UInt64} (hid : id ≠ 0) {op : JailOperation}
    (hop : op.validate = .ok ()) :
    (∃ frame, encodeRequest requestSerde (.new id op) = .ok frame ∧
      ∀ (source : Source) (rest : Bytes), source.Clean → source.bytes = frame ++ rest →
        ∃ payload source', readFrame source jailMaxFrameBytes = (.ok (.frame payload), source') ∧
          source'.bytes = rest ∧ decodeRequest requestSerde payload = .ok (.new id op)) ↔
    FitsFrame id op := by
  rw [← length_putRequest_le_iff id hop]
  constructor
  · rintro ⟨frame, hencode, -⟩
    obtain ⟨-, -, payload, hserde, hlen, -⟩ := encodeRequest_ok.mp hencode
    obtain rfl : putRequest (.new id op) = payload := Except.ok.inj hserde
    exact hlen
  · intro hlen
    have henvelope : (JailRequest.new id op).magic = jailMagic ∧
        (JailRequest.new id op).version = jailProtocolVersion ∧ (JailRequest.new id op).id ≠ 0 :=
      ⟨rfl, rfl, hid⟩
    refine ⟨_, encodeRequest_ok.mpr ⟨henvelope, hop, _, rfl, hlen, rfl⟩, ?_⟩
    intro source rest hclean hbytes
    have hne : putRequest (.new id op) ≠ [] := by
      intro hnil
      have hlength := length_putRequest id op
      rw [hnil, List.length_nil] at hlength
      omega
    obtain ⟨source', hread, -, hrest⟩ :=
      readFrame_frameOf hne (Nat.le_refl _) hlen hclean hbytes
    refine ⟨_, source', hread, hrest, ?_⟩
    exact decodeRequest_ok.mpr ⟨requestSerde_roundTrips _ _ rfl hlen, henvelope, hop⟩

/-- A load of `n` zero bytes, with the least of everything else. -/
def zeroModule (n : Nat) : WasmLoad where
  moduleId := ['m']
  digestSha256Hex := List.replicate 64 '0'
  wasmBytes := List.replicate n 0
  fuel := 1
  memoryPages := none
  timeoutMs := 1
  capabilities := ⟨true, false, false, false⟩

theorem length_zeroModule (n : Nat) : (zeroModule n).wasmBytes.length = n := List.length_replicate

theorem zeroModule_admitted {n : Nat} (h : n ≤ jailMaxModuleBytes) :
    (JailOperation.wasmLoad (zeroModule n)).validate = .ok () := by
  have hid : validateId (zeroModule n).moduleId "module" = .ok () := by
    show validateId ['m'] "module" = .ok ()
    decide
  have hdigest : validateDigestHex (zeroModule n).digestSha256Hex = .ok () := by
    show validateDigestHex (List.replicate 64 '0') = .ok ()
    decide
  have hrest : (zeroModule n).fuel = 1 ∧ (zeroModule n).memoryPages = none ∧
      (zeroModule n).timeoutMs = 1 ∧ (zeroModule n).capabilities.validate = .ok () :=
    ⟨rfl, rfl, rfl, rfl⟩
  simp only [JailOperation.validate, WasmLoad.validate, then_eq_ok, rejectIf_ok, hid, hdigest,
    length_zeroModule, hrest]
  refine ⟨trivial, trivial, Nat.not_lt.mpr h, by decide, by simp, by decide, trivial⟩

theorem zeroModule_fits : FitsFrame 1 (.wasmLoad (zeroModule 8000000)) := by
  show wasmLoadBytes 1 (zeroModule 8000000) ≤ jailMaxFrameBytes
  have hone : varintLen 1 ≤ 1 := varintLen_le (by decide) (by decide)
  have hlength : varintLen 8000000 ≤ 4 := varintLen_le (by decide) (by decide)
  have hbytes : wasmLoadBytes 1 (zeroModule 8000000) = 5 + 1 + varintLen 1 + 1 +
      (varintLen 1 + 1) + 65 + (varintLen 8000000 + 8000000) + varintLen 1 + (1 + 0) +
      varintLen 1 + 4 := by
    rw [wasmLoadBytes, length_zeroModule]
    rfl
  have hlimit : jailMaxFrameBytes = 8388608 := rfl
  omega

/-- A module of eight million bytes is sent, and read back from a source that gives the frame. -/
theorem large_module_sent :
    ∃ frame, encodeRequest requestSerde (.new 1 (.wasmLoad (zeroModule 8000000))) = .ok frame ∧
      ∀ (source : Source) (rest : Bytes), source.Clean → source.bytes = frame ++ rest →
        ∃ payload source', readFrame source jailMaxFrameBytes = (.ok (.frame payload), source') ∧
          source'.bytes = rest ∧
          decodeRequest requestSerde payload = .ok (.new 1 (.wasmLoad (zeroModule 8000000))) :=
  (request_sent_iff_fits (by decide) (zeroModule_admitted (by decide))).mpr zeroModule_fits

/-- **The largest module that is admitted does not fit a frame.** -/
theorem largest_module_does_not_fit :
    (JailOperation.wasmLoad (zeroModule 8388608)).validate = .ok () ∧
      ∀ frame, encodeRequest requestSerde (.new 1 (.wasmLoad (zeroModule 8388608))) ≠
        .ok frame := by
  have hop := zeroModule_admitted (n := 8388608) (by decide)
  refine ⟨hop, ?_⟩
  intro frame hencode
  obtain ⟨-, -, payload, hserde, hlen, -⟩ := encodeRequest_ok.mp hencode
  obtain rfl : putRequest (.new 1 (.wasmLoad (zeroModule 8388608))) = payload :=
    Except.ok.inj hserde
  have hfits : wasmLoadBytes 1 (zeroModule 8388608) ≤ jailMaxFrameBytes :=
    (length_putRequest_le_iff 1 hop).mp hlen
  have hover := length_lt_wasmLoadBytes 1 (zeroModule 8388608)
  rw [length_zeroModule] at hover
  exact absurd (Nat.lt_of_lt_of_le hover hfits) (by decide)

end Synvoid.Jail
