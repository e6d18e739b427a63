import Synvoid.Framework.BigEndian
import Synvoid.Framework.ByteSource
import Synvoid.Framework.RustStr

/-! # The jail protocol

    A request or a response travels as one frame: the length of its payload,
    four bytes with the high one first, and the payload. The parent checks the
    bounds of an operation before it sends it, and the jail checks them again
    after it has read it. The two directions bound the fields of an operation
    one by one, and the length of the whole payload in a second place.

    Serialization is a parameter here (`Serde`).
-/

namespace Synvoid.Jail

open Synvoid.Framework

/-! ## Section 1: Bounds -/

/-- `u32::from_be_bytes(*b"SVJL")`. -/
def jailMagic : UInt32 := 0x53564A4C

def jailProtocolVersion : UInt16 := 1

def jailMaxFrameBytes : Nat := 8 * 1024 * 1024

def jailMaxInvokeInputBytes : Nat := 1024 * 1024

def jailMaxInvokeOutputBytes : Nat := 1024 * 1024

def jailMaxScanInputBytes : Nat := 4 * 1024 * 1024

def jailMaxModuleBytes : Nat := 8 * 1024 * 1024

def jailMaxRulesBytes : Nat := 2 * 1024 * 1024

def jailMaxMatches : Nat := 256

def jailMaxHeaders : Nat := 64

def jailMaxIdLen : Nat := 128

def jailMaxErrorMessage : Nat := 512

def jailMaxMethodLen : Nat := 32

def jailMaxUriLen : Nat := 8192

def jailMaxHeaderNameLen : Nat := 128

def jailMaxHeaderValueLen : Nat := 16384

def jailMinTimeoutMs : UInt64 := 1

def jailMaxTimeoutMs : UInt64 := 60000

def jailMinMemoryPages : UInt32 := 1

def jailMaxMemoryPages : UInt32 := 1024

def jailMaxFuel : UInt64 := 1000000000000

/-! ## Section 2: Errors -/

inductive JailErrorCode where
  | unavailable
  | handshakeFailed
  | protocolViolation
  | oversized
  | timeout
  | childExited
  | framingError
  | resourceExhausted
  | unsupported
  | restartBudgetExhausted
  | policyDenied
  | executionFailed
  | digestMismatch
  | notFound
  deriving DecidableEq

/-- `JailError`: a variant for each code, all of them with a message. -/
structure JailError where
  code : JailErrorCode
  message : Str
  deriving DecidableEq

/-- The texts that `Display` puts before the message. -/
def JailErrorCode.display : JailErrorCode → Str
  | unavailable => "jail unavailable: ".toList
  | handshakeFailed => "jail handshake failed: ".toList
  | protocolViolation => "jail protocol violation: ".toList
  | oversized => "jail message oversized: ".toList
  | timeout => "jail call timed out: ".toList
  | childExited => "jail child exited: ".toList
  | framingError => "jail framing error: ".toList
  | resourceExhausted => "jail resource exhausted: ".toList
  | unsupported => "jail unsupported: ".toList
  | restartBudgetExhausted => "jail restart budget exhausted: ".toList
  | policyDenied => "jail policy denied: ".toList
  | executionFailed => "jail execution failed: ".toList
  | digestMismatch => "jail digest mismatch: ".toList
  | notFound => "jail object not found: ".toList

structure JailErrorDto where
  code : JailErrorCode
  message : Str
  deriving DecidableEq

def JailErrorDto.new (code : JailErrorCode) (message : Str) : JailErrorDto :=
  ⟨code, truncate jailMaxErrorMessage message⟩

namespace JailError

def protocolViolation (message : String) : JailError := ⟨.protocolViolation, message.toList⟩

def oversized (message : String) : JailError := ⟨.oversized, message.toList⟩

def policyDenied (message : String) : JailError := ⟨.policyDenied, message.toList⟩

def toDto (e : JailError) : JailErrorDto := .new e.code (e.code.display ++ e.message)

def framing (source : Str) : JailError := ⟨.framingError, truncate jailMaxErrorMessage source⟩

end JailError

/-- `if c { return Err(e) }`. -/
def rejectIf (c : Prop) [Decidable c] (e : JailError) : Except JailError Unit :=
  if c then .error e else .ok ()

@[simp] theorem rejectIf_ok {c : Prop} [Decidable c] {e : JailError} :
    rejectIf c e = .ok () ↔ ¬ c := by
  unfold rejectIf
  split <;> simp_all

/-- One check after the other. -/
theorem then_eq_ok {ε β : Type} {x : Except ε Unit} {y : Except ε β} {b : β} :
    (x >>= fun _ => y) = .ok b ↔ x = .ok () ∧ y = .ok b := by
  constructor
  · intro h
    obtain ⟨_, hx, hy⟩ := bind_eq_ok h
    exact ⟨hx, hy⟩
  · rintro ⟨rfl, rfl⟩
    rfl

/-! ## Section 3: Operations -/

structure JailHookCapabilities where
  requestInspect : Bool
  requestMutate : Bool
  responseInspect : Bool
  responseMutate : Bool
  deriving DecidableEq

def JailHookCapabilities.validate (c : JailHookCapabilities) : Except JailError Unit :=
  rejectIf (!(c.requestInspect || c.requestMutate || c.responseInspect || c.responseMutate))
    (.policyDenied "wasm jail load grants no hook capability")

structure WasmLoad where
  moduleId : Str
  digestSha256Hex : Str
  wasmBytes : Bytes
  fuel : UInt64
  memoryPages : Option UInt32
  timeoutMs : UInt64
  capabilities : JailHookCapabilities
  deriving DecidableEq

structure WasmInvoke where
  moduleId : Str
  method : Str
  uri : Str
  headers : List (Str × Str)
  body : Bytes
  deriving DecidableEq

structure YaraLoadRules where
  rulesId : Str
  digestSha256Hex : Str
  rulesText : Str
  deriving DecidableEq

structure YaraScan where
  rulesId : Str
  data : Bytes
  deriving DecidableEq

inductive JailOperation where
  | ping
  | shutdown
  | wasmLoad (load : WasmLoad)
  | wasmInvoke (invoke : WasmInvoke)
  | wasmUnload (moduleId : Str)
  | yaraLoadRules (load : YaraLoadRules)
  | yaraScan (scan : YaraScan)
  | yaraUnload (rulesId : Str)
  deriving DecidableEq

/-- Letters, digits, and the four other bytes that an id may have. -/
def idByteOk (b : UInt8) : Bool :=
  (48 ≤ b && b ≤ 57) || (65 ≤ b && b ≤ 90) || (97 ≤ b && b ≤ 122) ||
    b = 45 || b = 95 || b = 46 || b = 58

/-- `is_ascii_hexdigit`. -/
def isAsciiHexdigit (b : UInt8) : Bool :=
  (48 ≤ b && b ≤ 57) || (65 ≤ b && b ≤ 70) || (97 ≤ b && b ≤ 102)

def validateId (id : Str) (what : String) : Except JailError Unit := do
  rejectIf (id = [] ∨ byteLen id > jailMaxIdLen) (.oversized (what ++ " id length out of bounds"))
  rejectIf (!(utf8 id).all idByteOk)
    (.protocolViolation (what ++ " id contains forbidden characters"))

def validateDigestHex (hex : Str) : Except JailError Unit :=
  rejectIf (byteLen hex ≠ 64 ∨ !(utf8 hex).all isAsciiHexdigit)
    ⟨.digestMismatch, "digest must be 64 lowercase hex characters".toList⟩

/-- `"{what} too large: {n} bytes"`. -/
def tooLarge (what : String) (n : Nat) : JailError :=
  ⟨.oversized, what.toList ++ " too large: ".toList ++ decimal n ++ " bytes".toList⟩

def WasmLoad.validate (l : WasmLoad) : Except JailError Unit := do
  validateId l.moduleId "module"
  validateDigestHex l.digestSha256Hex
  rejectIf (l.wasmBytes.length > jailMaxModuleBytes) (tooLarge "wasm module" l.wasmBytes.length)
  rejectIf (l.fuel = 0 ∨ l.fuel > jailMaxFuel)
    (.policyDenied "wasm fuel budget out of bounds (must be nonzero)")
  rejectIf (∃ pages ∈ l.memoryPages, pages < jailMinMemoryPages ∨ pages > jailMaxMemoryPages)
    (.policyDenied "wasm memory pages out of bounds")
  rejectIf (l.timeoutMs < jailMinTimeoutMs ∨ l.timeoutMs > jailMaxTimeoutMs)
    (.policyDenied "wasm timeout out of bounds")
  l.capabilities.validate

def WasmInvoke.validate (i : WasmInvoke) : Except JailError Unit := do
  validateId i.moduleId "module"
  rejectIf (i.method = [] ∨ byteLen i.method > jailMaxMethodLen)
    (.oversized "invoke method length out of bounds")
  rejectIf (byteLen i.uri > jailMaxUriLen) (.oversized "invoke uri length out of bounds")
  rejectIf (i.headers.length > jailMaxHeaders) (.oversized "too many headers")
  rejectIf (∃ header ∈ i.headers, header.1 = [] ∨ byteLen header.1 > jailMaxHeaderNameLen ∨
    byteLen header.2 > jailMaxHeaderValueLen) (.oversized "header name/value length out of bounds")
  rejectIf (i.body.length + byteLen i.uri + i.headers.length * 64 > jailMaxInvokeInputBytes)
    (.oversized "invoke input too large")

def YaraLoadRules.validate (l : YaraLoadRules) : Except JailError Unit := do
  validateId l.rulesId "rules"
  validateDigestHex l.digestSha256Hex
  rejectIf (byteLen l.rulesText > jailMaxRulesBytes) (tooLarge "yara rules" (byteLen l.rulesText))

def YaraScan.validate (s : YaraScan) : Except JailError Unit := do
  validateId s.rulesId "rules"
  rejectIf (s.data.length > jailMaxScanInputBytes) (tooLarge "yara scan input" s.data.length)

def JailOperation.validate : JailOperation → Except JailError Unit
  | ping | shutdown => .ok ()
  | wasmLoad l => l.validate
  | wasmInvoke i => i.validate
  | wasmUnload moduleId => validateId moduleId "module"
  | yaraLoadRules l => l.validate
  | yaraScan s => s.validate
  | yaraUnload rulesId => validateId rulesId "rules"

/-! ## Section 4: Envelopes -/

structure YaraMatchDto where
  ruleName : Str
  ns : Str
  tags : List Str
  category : Str
  severity : Str
  description : Str
  deriving DecidableEq

structure WasmResult where
  status : UInt16
  headers : List (Str × Str)
  body : Bytes
  deriving DecidableEq

inductive JailOutput where
  | pong
  | wasmLoaded
  | wasmResult (result : WasmResult)
  | wasmUnloaded
  | yaraRulesLoaded
  | yaraScanResult (results : List YaraMatchDto)
  | yaraUnloaded
  | shutdownAck
  deriving DecidableEq

inductive JailResult where
  | ok (output : JailOutput)
  | err (dto : JailErrorDto)
  deriving DecidableEq

structure JailRequest where
  magic : UInt32
  version : UInt16
  id : UInt64
  op : JailOperation
  deriving DecidableEq

structure JailResponse where
  magic : UInt32
  version : UInt16
  id : UInt64
  result : JailResult
  deriving DecidableEq

def JailRequest.new (id : UInt64) (op : JailOperation) : JailRequest :=
  ⟨jailMagic, jailProtocolVersion, id, op⟩

def JailResponse.new (id : UInt64) (result : JailResult) : JailResponse :=
  ⟨jailMagic, jailProtocolVersion, id, result⟩

/-! ## Section 5: Framing -/

/-- `postcard::to_allocvec` and `postcard::from_bytes` at a type, with the text
    of the error. -/
structure Serde (T : Type) where
  toAllocvec : T → Except Str Bytes
  fromBytes : Bytes → Except Str T

/-- What is serialized into a frame is read back. -/
def Serde.RoundTrips {T : Type} (serde : Serde T) : Prop :=
  ∀ t data, serde.toAllocvec t = .ok data → data.length ≤ jailMaxFrameBytes →
    serde.fromBytes data = .ok t

/-- The checks of an envelope. The two sides word the second of them in their
    own way. -/
def checkEnvelope (what : String) (versionError : Str) (magic : UInt32) (version : UInt16)
    (id : UInt64) : Except JailError Unit := do
  rejectIf (magic ≠ jailMagic) (.protocolViolation ("bad " ++ what ++ " magic"))
  rejectIf (version ≠ jailProtocolVersion) ⟨.protocolViolation, versionError⟩
  rejectIf (id = 0) (.protocolViolation (what ++ " id must be nonzero"))

/-- The length of a payload and the payload. -/
def frameOf (payload : Bytes) : Bytes := beBytes 4 (payload.length % 4294967296) ++ payload

def frameChecked (what : String) (payload : Bytes) : Except JailError Bytes :=
  if payload.length > jailMaxFrameBytes then .error (tooLarge ("encoded " ++ what) payload.length)
  else .ok (frameOf payload)

def encodeRequest (serde : Serde JailRequest) (req : JailRequest) : Except JailError Bytes := do
  checkEnvelope "request" "unsupported request version".toList req.magic req.version req.id
  req.op.validate
  let payload ← (serde.toAllocvec req).mapError .framing
  frameChecked "request" payload

/-- The bounds of `encode_response` on outputs. -/
def checkOutput : JailResult → Except JailError Unit
  | .ok (.wasmResult result) =>
      if result.body.length > jailMaxInvokeOutputBytes then
        .error (.oversized "response body too large")
      else .ok ()
  | .ok (.yaraScanResult results) =>
      if results.length > jailMaxMatches then .error (.oversized "too many matches") else .ok ()
  | _ => .ok ()

def encodeResponse (serde : Serde JailResponse) (res : JailResponse) : Except JailError Bytes := do
  checkEnvelope "response" "unsupported response version".toList res.magic res.version res.id
  checkOutput res.result
  let payload ← (serde.toAllocvec res).mapError .framing
  frameChecked "response" payload

inductive FrameRead where
  | frame (payload : Bytes)
  | cleanEof
  deriving DecidableEq

/-- The loop that fills the length prefix; `none` if there was no byte of it. -/
def readPrefix (got : Bytes) (source : Source) : Except JailError (Option Bytes) × Source :=
  if _h : got.length < 4 then
    match source.read (3 - got.length) with
    | (.ok [], source) =>
        if got = [] then (.ok none, source)
        else (.error ⟨.framingError, "truncated frame length prefix".toList⟩, source)
    | (.ok (b :: more), source) => readPrefix (got ++ b :: more) source
    | (.error e, source) => (.error (.framing e.message.toList), source)
  else (.ok (some got), source)
termination_by 4 - got.length
decreasing_by
  simp only [List.length_append, List.length_cons]
  omega

def readFrame (source : Source) (maxBytes : Nat) : Except JailError FrameRead × Source :=
  match readPrefix [] source with
  | (.error e, source) => (.error e, source)
  | (.ok none, source) => (.ok .cleanEof, source)
  | (.ok (some lenBuf), source) =>
      let len := beValue lenBuf
      if len = 0 then (.error ⟨.framingError, "empty frame".toList⟩, source)
      else if len > maxBytes then
        (.error ⟨.oversized, "frame length ".toList ++ decimal len ++ " exceeds limit ".toList ++
          decimal maxBytes⟩, source)
      else
        match source.readExact len with
        | (.ok payload, source) => (.ok (.frame payload), source)
        | (.error e, source) =>
            if e.kind = .unexpectedEof then
              (.error ⟨.framingError, "truncated frame payload".toList⟩, source)
            else (.error (.framing e.message.toList), source)

def decodeRequest (serde : Serde JailRequest) (payload : Bytes) : Except JailError JailRequest := do
  let req ← (serde.fromBytes payload).mapError .framing
  checkEnvelope "request" ("unsupported request version: ".toList ++ decimal req.version.toNat)
    req.magic req.version req.id
  req.op.validate
  pure req

def decodeResponse (serde : Serde JailResponse) (payload : Bytes) :
    Except JailError JailResponse := do
  let res ← (serde.fromBytes payload).mapError .framing
  checkEnvelope "response" ("unsupported response version: ".toList ++ decimal res.version.toNat)
    res.magic res.version res.id
  pure res

/-! ## Section 6: Frames are read back -/

/-- What a clean source still has at its front. -/
theorem read_of_clean {source : Source} (hclean : source.Clean) {n : Nat} {b : UInt8} {rest : Bytes}
    (hbytes : source.bytes = b :: rest) :
    ∃ more source', source.read n = (.ok (b :: more), source') ∧ source'.Clean ∧
      rest = more ++ source'.bytes ∧ more.length ≤ n := by
  have hclean' := hclean.read n
  generalize hread : source.read n = result at hclean'
  obtain ⟨result, source'⟩ := result
  cases result with
  | error e =>
    rw [Source.bytes_read_error hread] at hclean
    exact (hclean e (List.mem_cons_self ..)).elim
  | ok got =>
    cases got with
    | nil =>
      rw [Source.eq_nil_of_read_nil hread] at hbytes
      cases hbytes
    | cons b' more =>
      obtain ⟨hsplit, hlen⟩ := Source.bytes_read_ok hread
      rw [hbytes, List.cons_append, List.cons.injEq] at hsplit
      obtain ⟨rfl, rfl⟩ := hsplit
      exact ⟨more, source', rfl, hclean', rfl, Nat.le_of_succ_le_succ hlen⟩

theorem readPrefix_of_append {got front : Bytes} (hlen : got.length + front.length = 4)
    {source : Source} (hclean : source.Clean) {rest : Bytes}
    (hbytes : source.bytes = front ++ rest) :
    ∃ source', readPrefix got source = (.ok (some (got ++ front)), source') ∧ source'.Clean ∧
      source'.bytes = rest := by
  induction hn : front.length using Nat.strongRecOn generalizing got front source with
  | ind n ih =>
    cases front with
    | nil =>
      refine ⟨source, ?_, hclean, hbytes⟩
      rw [readPrefix, dif_neg (by simp at hlen; omega), List.append_nil]
    | cons b front =>
      simp only [List.length_cons] at hlen hn
      obtain ⟨more, source', hread, hclean', hsplit, hmore⟩ :=
        read_of_clean hclean (n := 3 - got.length) hbytes
      -- the read gives no more than is missing
      obtain ⟨front', rfl, hrest⟩ : ∃ front', front = more ++ front' ∧
          source'.bytes = front' ++ rest := by
        rcases List.append_eq_append_iff.mp hsplit with ⟨front', h₁, h₂⟩ | ⟨front', h₁, h₂⟩
        · have hnil : front' = [] := by
            have := congrArg List.length h₁
            rw [List.length_append] at this
            exact List.length_eq_zero_iff.mp (by omega)
          subst hnil
          exact ⟨[], by simpa using h₁.symm, by simpa using h₂.symm⟩
        · exact ⟨front', h₁, h₂⟩
      rw [List.length_append] at hlen hn
      rw [readPrefix, dif_pos (by omega), hread]
      have hgot : (got ++ b :: more).length + front'.length = 4 := by
        simp only [List.length_append, List.length_cons]
        omega
      obtain ⟨source'', hfront, hclean'', hbytes''⟩ := ih front'.length (by omega)
        hgot hclean' hrest rfl
      exact ⟨source'', by simpa using hfront, hclean'', hbytes''⟩

/-- A frame at the front of a stream without errors. -/
theorem readFrame_frameOf {payload : Bytes} (hne : payload ≠ []) {maxBytes : Nat}
    (hmax : maxBytes ≤ jailMaxFrameBytes) (hlen : payload.length ≤ maxBytes) {source : Source}
    (hclean : source.Clean) {rest : Bytes} (hbytes : source.bytes = frameOf payload ++ rest) :
    ∃ source', readFrame source maxBytes = (.ok (.frame payload), source') ∧ source'.Clean ∧
      source'.bytes = rest := by
  have hlt : payload.length < 4294967296 :=
    Nat.lt_of_le_of_lt (Nat.le_trans hlen hmax) (by decide)
  rw [frameOf, Nat.mod_eq_of_lt hlt, List.append_assoc] at hbytes
  have hfour : ([] : Bytes).length + (beBytes 4 payload.length).length = 4 := by simp
  obtain ⟨source₁, hfront, hclean₁, hbytes₁⟩ := readPrefix_of_append hfour hclean hbytes
  obtain ⟨source₂, hread, hbytes₂, hclean₂⟩ := Source.readExact_of_append hclean₁ hbytes₁
  refine ⟨source₂, ?_, hclean₂, hbytes₂⟩
  have hvalue : beValue (beBytes 4 payload.length) = payload.length := beValue_beBytes hlt
  have hpos : payload.length ≠ 0 := fun hzero => hne (List.length_eq_zero_iff.mp hzero)
  rw [readFrame, hfront]
  simp only [List.nil_append, hvalue]
  rw [if_neg hpos, if_neg (by omega), hread]

theorem size_readPrefix_lt {got buf : Bytes} (hgot : got.length < 4) {source source' : Source}
    (h : readPrefix got source = (.ok (some buf), source')) : source'.size < source.size := by
  fun_induction readPrefix got source with
  | case1 => simp at h
  | case2 => simp at h
  | case3 got source _ b more rest hread ih =>
    have hne : source ≠ [] := by
      rintro rfl
      simp [Source.read] at hread
    have hlt := Source.size_read_lt (3 - got.length) hne
    rw [hread] at hlt
    by_cases hmore : (got ++ b :: more).length < 4
    · exact Nat.lt_trans (ih hmore h) hlt
    · rw [readPrefix, dif_neg hmore] at h
      obtain rfl : rest = source' := congrArg Prod.snd h
      exact hlt
  | case4 => simp at h
  | case5 got source hfull => exact absurd hgot hfull

/-- Every frame uses up some of the source. -/
theorem size_readFrame_lt {source source' : Source} {maxBytes : Nat} {payload : Bytes}
    (h : readFrame source maxBytes = (.ok (.frame payload), source')) :
    source'.size < source.size := by
  unfold readFrame at h
  split at h
  · simp at h
  · simp at h
  · next lenBuf source₁ hfront =>
    have hlt := size_readPrefix_lt (by decide) hfront
    simp only at h
    split at h
    · simp at h
    · split at h
      · simp at h
      · have hle := Source.size_readExact_le (beValue lenBuf) source₁
        split at h
        · next hread =>
          rw [hread] at hle
          obtain rfl := congrArg Prod.snd h
          exact Nat.lt_of_le_of_lt hle hlt
        · split at h <;> simp at h

/-! ## Section 7: Envelopes -/

theorem checkEnvelope_ok {what : String} {text : Str} {magic : UInt32} {version : UInt16}
    {id : UInt64} : checkEnvelope what text magic version id = .ok () ↔
      magic = jailMagic ∧ version = jailProtocolVersion ∧ id ≠ 0 := by
  simp [checkEnvelope, then_eq_ok]

theorem mapError_eq_ok {ε ε' α : Type} {x : Except ε α} {f : ε → ε'} {a : α}
    (h : x.mapError f = .ok a) : x = .ok a := by
  cases x with
  | error e => cases h
  | ok b => exact congrArg Except.ok (Except.ok.inj h)

theorem frameChecked_ok {what : String} {payload frame : Bytes} :
    frameChecked what payload = .ok frame ↔
      payload.length ≤ jailMaxFrameBytes ∧ frame = frameOf payload := by
  unfold frameChecked
  split_ifs with hlen
  · simp [hlen]
  · simp [Nat.le_of_not_lt hlen, eq_comm]

/-- The requests that can be sent. -/
theorem encodeRequest_ok {serde : Serde JailRequest} {req : JailRequest} {frame : Bytes} :
    encodeRequest serde req = .ok frame ↔
      (req.magic = jailMagic ∧ req.version = jailProtocolVersion ∧ req.id ≠ 0) ∧
      req.op.validate = .ok () ∧ ∃ payload, serde.toAllocvec req = .ok payload ∧
        payload.length ≤ jailMaxFrameBytes ∧ frame = frameOf payload := by
  constructor
  · intro h
    obtain ⟨_, henvelope, h⟩ := bind_eq_ok h
    obtain ⟨_, hop, h⟩ := bind_eq_ok h
    obtain ⟨payload, hserde, h⟩ := bind_eq_ok h
    exact ⟨checkEnvelope_ok.mp henvelope, hop, payload, mapError_eq_ok hserde, frameChecked_ok.mp h⟩
  · rintro ⟨henvelope, hop, payload, hserde, hframe⟩
    have hchecked : frameChecked "request" payload = .ok frame := frameChecked_ok.mpr hframe
    simp only [encodeRequest, checkEnvelope_ok.mpr henvelope, hop, hserde]
    exact hchecked

/-- The responses that can be sent. -/
theorem encodeResponse_ok {serde : Serde JailResponse} {res : JailResponse} {frame : Bytes} :
    encodeResponse serde res = .ok frame ↔
      (res.magic = jailMagic ∧ res.version = jailProtocolVersion ∧ res.id ≠ 0) ∧
      checkOutput res.result = .ok () ∧ ∃ payload, serde.toAllocvec res = .ok payload ∧
        payload.length ≤ jailMaxFrameBytes ∧ frame = frameOf payload := by
  constructor
  · intro h
    obtain ⟨_, henvelope, h⟩ := bind_eq_ok h
    obtain ⟨_, houtput, h⟩ := bind_eq_ok h
    obtain ⟨payload, hserde, h⟩ := bind_eq_ok h
    exact ⟨checkEnvelope_ok.mp henvelope, houtput, payload, mapError_eq_ok hserde,
      frameChecked_ok.mp h⟩
  · rintro ⟨henvelope, houtput, payload, hserde, hframe⟩
    have hchecked : frameChecked "response" payload = .ok frame := frameChecked_ok.mpr hframe
    simp only [encodeResponse, checkEnvelope_ok.mpr henvelope, houtput, hserde]
    exact hchecked

theorem decodeRequest_ok {serde : Serde JailRequest} {payload : Bytes} {req : JailRequest} :
    decodeRequest serde payload = .ok req ↔
      serde.fromBytes payload = .ok req ∧
      (req.magic = jailMagic ∧ req.version = jailProtocolVersion ∧ req.id ≠ 0) ∧
      req.op.validate = .ok () := by
  constructor
  · intro h
    obtain ⟨req', hserde, h⟩ := bind_eq_ok h
    obtain ⟨_, henvelope, h⟩ := bind_eq_ok h
    obtain ⟨_, hop, h⟩ := bind_eq_ok h
    obtain rfl : req' = req := Except.ok.inj h
    exact ⟨mapError_eq_ok hserde, checkEnvelope_ok.mp henvelope, hop⟩
  · rintro ⟨hserde, henvelope, hop⟩
    simp only [decodeRequest, hserde]
    show (checkEnvelope _ _ _ _ _ >>= fun _ => req.op.validate >>= fun _ => pure req) = _
    rw [checkEnvelope_ok.mpr henvelope, hop]
    rfl

theorem decodeResponse_ok {serde : Serde JailResponse} {payload : Bytes} {res : JailResponse}
    (hserde : serde.fromBytes payload = .ok res) (hmagic : res.magic = jailMagic)
    (hversion : res.version = jailProtocolVersion) (hid : res.id ≠ 0) :
    decodeResponse serde payload = .ok res := by
  simp only [decodeResponse, hserde]
  show (checkEnvelope _ _ _ _ _ >>= fun _ => pure res) = _
  rw [checkEnvelope_ok.mpr ⟨hmagic, hversion, hid⟩]
  rfl

end Synvoid.Jail
