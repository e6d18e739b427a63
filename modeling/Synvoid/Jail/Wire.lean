import Synvoid.Framework.Postcard
import Synvoid.Jail.Protocol

/-! # The bytes of jail messages

    The envelopes in the postcard format: the fields of a struct in their order,
    and a variant as its index and its fields. What is serialized into a frame
    is read back (`requestSerde_roundTrips`, `responseSerde_roundTrips`), because
    every length in it is shorter than the frame.
-/

namespace Synvoid.Jail

open Synvoid.Framework Synvoid.Framework.Postcard

/-! ## Section 1: Requests -/

def putCapabilities (c : JailHookCapabilities) : Bytes :=
  putBool c.requestInspect ++ putBool c.requestMutate ++ putBool c.responseInspect ++
    putBool c.responseMutate

def takeCapabilities : Parser JailHookCapabilities :=
  JailHookCapabilities.mk <$> takeBool <*> takeBool <*> takeBool <*> takeBool

def putWasmLoad (l : WasmLoad) : Bytes :=
  putStr l.moduleId ++ putStr l.digestSha256Hex ++ putBytes l.wasmBytes ++ putU64 l.fuel ++
    putOption putU32 l.memoryPages ++ putU64 l.timeoutMs ++ putCapabilities l.capabilities

def takeWasmLoad : Parser WasmLoad :=
  WasmLoad.mk <$> takeStr <*> takeStr <*> takeBytes <*> takeU64 <*> takeOption takeU32 <*> takeU64
    <*> takeCapabilities

def putHeaders (headers : List (Str × Str)) : Bytes := putSeq (putPair putStr putStr) headers

def takeHeaders : Parser (List (Str × Str)) := takeSeq (takePair takeStr takeStr)

def putWasmInvoke (i : WasmInvoke) : Bytes :=
  putStr i.moduleId ++ putStr i.method ++ putStr i.uri ++ putHeaders i.headers ++ putBytes i.body

def takeWasmInvoke : Parser WasmInvoke :=
  WasmInvoke.mk <$> takeStr <*> takeStr <*> takeStr <*> takeHeaders <*> takeBytes

def putYaraLoadRules (l : YaraLoadRules) : Bytes :=
  putStr l.rulesId ++ putStr l.digestSha256Hex ++ putStr l.rulesText

def takeYaraLoadRules : Parser YaraLoadRules :=
  YaraLoadRules.mk <$> takeStr <*> takeStr <*> takeStr

def putYaraScan (s : YaraScan) : Bytes := putStr s.rulesId ++ putBytes s.data

def takeYaraScan : Parser YaraScan := YaraScan.mk <$> takeStr <*> takeBytes

def putOperation : JailOperation → Bytes
  | .ping => putU32 0
  | .shutdown => putU32 1
  | .wasmLoad load => putU32 2 ++ putWasmLoad load
  | .wasmInvoke invoke => putU32 3 ++ putWasmInvoke invoke
  | .wasmUnload moduleId => putU32 4 ++ putStr moduleId
  | .yaraLoadRules load => putU32 5 ++ putYaraLoadRules load
  | .yaraScan scan => putU32 6 ++ putYaraScan scan
  | .yaraUnload rulesId => putU32 7 ++ putStr rulesId

/-- The fields of the variant with an index. -/
def takeVariant : Nat → Parser JailOperation
  | 0 => pure .ping
  | 1 => pure .shutdown
  | 2 => .wasmLoad <$> takeWasmLoad
  | 3 => .wasmInvoke <$> takeWasmInvoke
  | 4 => .wasmUnload <$> takeStr
  | 5 => .yaraLoadRules <$> takeYaraLoadRules
  | 6 => .yaraScan <$> takeYaraScan
  | 7 => .yaraUnload <$> takeStr
  | _ => throw .custom

def takeOperation : Parser JailOperation := do
  let index ← takeU32
  takeVariant index.toNat

def putRequest (r : JailRequest) : Bytes :=
  putU32 r.magic ++ putU16 r.version ++ putU64 r.id ++ putOperation r.op

def takeRequest : Parser JailRequest :=
  JailRequest.mk <$> takeU32 <*> takeU16 <*> takeU64 <*> takeOperation

/-! ## Section 2: Responses -/

def JailErrorCode.all : List JailErrorCode :=
  [.unavailable, .handshakeFailed, .protocolViolation, .oversized, .timeout, .childExited,
    .framingError, .resourceExhausted, .unsupported, .restartBudgetExhausted, .policyDenied,
    .executionFailed, .digestMismatch, .notFound]

def JailErrorCode.index : JailErrorCode → Nat
  | unavailable => 0
  | handshakeFailed => 1
  | protocolViolation => 2
  | oversized => 3
  | timeout => 4
  | childExited => 5
  | framingError => 6
  | resourceExhausted => 7
  | unsupported => 8
  | restartBudgetExhausted => 9
  | policyDenied => 10
  | executionFailed => 11
  | digestMismatch => 12
  | notFound => 13

def putErrorCode (code : JailErrorCode) : Bytes := putU32 (UInt32.ofNat code.index)

def takeErrorCode : Parser JailErrorCode := do
  let index ← takeU32
  match JailErrorCode.all[index.toNat]? with
  | some code => pure code
  | none => throw .custom

def putErrorDto (e : JailErrorDto) : Bytes := putErrorCode e.code ++ putStr e.message

def takeErrorDto : Parser JailErrorDto := JailErrorDto.mk <$> takeErrorCode <*> takeStr

def putMatch (m : YaraMatchDto) : Bytes :=
  putStr m.ruleName ++ putStr m.ns ++ putSeq putStr m.tags ++ putStr m.category ++
    putStr m.severity ++ putStr m.description

def takeMatch : Parser YaraMatchDto :=
  YaraMatchDto.mk <$> takeStr <*> takeStr <*> takeSeq takeStr <*> takeStr <*> takeStr <*> takeStr

def putWasmResult (r : WasmResult) : Bytes :=
  putU16 r.status ++ putHeaders r.headers ++ putBytes r.body

def takeWasmResult : Parser WasmResult := WasmResult.mk <$> takeU16 <*> takeHeaders <*> takeBytes

def putOutput : JailOutput → Bytes
  | .pong => putU32 0
  | .wasmLoaded => putU32 1
  | .wasmResult result => putU32 2 ++ putWasmResult result
  | .wasmUnloaded => putU32 3
  | .yaraRulesLoaded => putU32 4
  | .yaraScanResult results => putU32 5 ++ putSeq putMatch results
  | .yaraUnloaded => putU32 6
  | .shutdownAck => putU32 7

def takeOutputVariant : Nat → Parser JailOutput
  | 0 => pure .pong
  | 1 => pure .wasmLoaded
  | 2 => .wasmResult <$> takeWasmResult
  | 3 => pure .wasmUnloaded
  | 4 => pure .yaraRulesLoaded
  | 5 => .yaraScanResult <$> takeSeq takeMatch
  | 6 => pure .yaraUnloaded
  | 7 => pure .shutdownAck
  | _ => throw .custom

def takeOutput : Parser JailOutput := do
  let index ← takeU32
  takeOutputVariant index.toNat

def putResult : JailResult → Bytes
  | .ok output => putU32 0 ++ putOutput output
  | .err dto => putU32 1 ++ putErrorDto dto

def takeResultVariant : Nat → Parser JailResult
  | 0 => .ok <$> takeOutput
  | 1 => .err <$> takeErrorDto
  | _ => throw .custom

def takeResult : Parser JailResult := do
  let index ← takeU32
  takeResultVariant index.toNat

def putResponse (r : JailResponse) : Bytes :=
  putU32 r.magic ++ putU16 r.version ++ putU64 r.id ++ putResult r.result

def takeResponse : Parser JailResponse :=
  JailResponse.mk <$> takeU32 <*> takeU16 <*> takeU64 <*> takeResult

/-! ## Section 3: Serialization -/

/-- `from_bytes` does not look at bytes behind the value. -/
def serdeOf {T : Type} (put : T → Bytes) (take : Parser T) : Serde T where
  toAllocvec := fun t => .ok (put t)
  fromBytes := fun data =>
    match take data with
    | .ok (t, _) => .ok t
    | .error e => .error e.text

def requestSerde : Serde JailRequest := serdeOf putRequest takeRequest

def responseSerde : Serde JailResponse := serdeOf putResponse takeResponse

theorem serdeOf_roundTrips {T : Type} {put : T → Bytes} {take : Parser T}
    (h : ∀ t, SizeOk (put t) → Reads take (put t) t) : (serdeOf put take).RoundTrips := by
  intro t data hput hlen
  obtain rfl : put t = data := Except.ok.inj hput
  have hread := h t (Nat.lt_of_le_of_lt hlen (by decide)) []
  rw [List.append_nil] at hread
  simp [serdeOf, hread]

/-! ## Section 4: What is serialized is read back -/

/-- A variant without fields. -/
theorem reads_unit {α : Type} {index : UInt32} {k : UInt32 → Parser α} {a : α}
    (h : k index = pure a) : Reads (takeU32 >>= k) (putU32 index) a := by
  have hread := (reads_u32 index).bind (k := k) (h ▸ Reads.pure a)
  rwa [List.append_nil] at hread

theorem reads_capabilities (c : JailHookCapabilities) :
    Reads takeCapabilities (putCapabilities c) c :=
  ((((reads_bool _).map _).seq (reads_bool _)).seq (reads_bool _)).seq (reads_bool _)

theorem reads_wasmLoad {l : WasmLoad} (h : SizeOk (putWasmLoad l)) :
    Reads takeWasmLoad (putWasmLoad l) l := by
  have hbytes := h.of_append.1.of_append.1.of_append.1.of_append.1
  refine (((((((reads_str ?_).map _).seq (reads_str ?_)).seq (reads_bytes ?_)).seq
    (reads_u64 _)).seq (reads_option ?_)).seq (reads_u64 _)).seq (reads_capabilities _)
  · exact hbytes.of_append.1.of_append.1
  · exact hbytes.of_append.1.of_append.2
  · exact hbytes.of_append.2
  · exact fun pages _ => reads_u32 pages

theorem reads_headers {headers : List (Str × Str)} (h : SizeOk (putHeaders headers)) :
    Reads takeHeaders (putHeaders headers) headers := by
  refine reads_seq h ?_ ?_
  · intro header _ hnil
    exact putStr_ne_nil _ (List.append_eq_nil_iff.mp hnil).1
  · intro header _ hsize
    exact reads_pair (reads_str hsize.of_append.1) (reads_str hsize.of_append.2)

theorem reads_wasmInvoke {i : WasmInvoke} (h : SizeOk (putWasmInvoke i)) :
    Reads takeWasmInvoke (putWasmInvoke i) i := by
  have hheaders := h.of_append.1
  have huri := hheaders.of_append.1
  exact (((((reads_str huri.of_append.1.of_append.1).map _).seq
    (reads_str huri.of_append.1.of_append.2)).seq (reads_str huri.of_append.2)).seq
    (reads_headers hheaders.of_append.2)).seq (reads_bytes h.of_append.2)

theorem reads_yaraLoadRules {l : YaraLoadRules} (h : SizeOk (putYaraLoadRules l)) :
    Reads takeYaraLoadRules (putYaraLoadRules l) l :=
  (((reads_str h.of_append.1.of_append.1).map _).seq (reads_str h.of_append.1.of_append.2)).seq
    (reads_str h.of_append.2)

theorem reads_yaraScan {s : YaraScan} (h : SizeOk (putYaraScan s)) :
    Reads takeYaraScan (putYaraScan s) s :=
  ((reads_str h.of_append.1).map _).seq (reads_bytes h.of_append.2)

theorem reads_operation {op : JailOperation} (h : SizeOk (putOperation op)) :
    Reads takeOperation (putOperation op) op := by
  cases op with
  | ping => exact reads_unit rfl
  | shutdown => exact reads_unit rfl
  | wasmLoad load => exact (reads_u32 2).bind ((reads_wasmLoad h.of_append.2).map _)
  | wasmInvoke invoke => exact (reads_u32 3).bind ((reads_wasmInvoke h.of_append.2).map _)
  | wasmUnload moduleId => exact (reads_u32 4).bind ((reads_str h.of_append.2).map _)
  | yaraLoadRules load => exact (reads_u32 5).bind ((reads_yaraLoadRules h.of_append.2).map _)
  | yaraScan scan => exact (reads_u32 6).bind ((reads_yaraScan h.of_append.2).map _)
  | yaraUnload rulesId => exact (reads_u32 7).bind ((reads_str h.of_append.2).map _)

theorem requestSerde_roundTrips : requestSerde.RoundTrips :=
  serdeOf_roundTrips fun _ h =>
    ((((reads_u32 _).map _).seq (reads_u16 _)).seq (reads_u64 _)).seq
      (reads_operation h.of_append.2)

theorem reads_errorCode (code : JailErrorCode) : Reads takeErrorCode (putErrorCode code) code := by
  refine reads_unit ?_
  cases code <;> rfl

theorem reads_errorDto {e : JailErrorDto} (h : SizeOk (putErrorDto e)) :
    Reads takeErrorDto (putErrorDto e) e :=
  ((reads_errorCode _).map _).seq (reads_str h.of_append.2)

theorem reads_match {m : YaraMatchDto} (h : SizeOk (putMatch m)) :
    Reads takeMatch (putMatch m) m := by
  have hseverity := h.of_append.1
  have hcategory := hseverity.of_append.1
  have htags := hcategory.of_append.1
  have hns := htags.of_append.1
  refine ((((((reads_str hns.of_append.1).map _).seq (reads_str hns.of_append.2)).seq
    (reads_seq htags.of_append.2 ?_ ?_)).seq (reads_str hcategory.of_append.2)).seq
    (reads_str hseverity.of_append.2)).seq (reads_str h.of_append.2)
  · exact fun tag _ => putStr_ne_nil tag
  · exact fun tag _ => reads_str

theorem reads_wasmResult {r : WasmResult} (h : SizeOk (putWasmResult r)) :
    Reads takeWasmResult (putWasmResult r) r :=
  (((reads_u16 _).map _).seq (reads_headers h.of_append.1.of_append.2)).seq
    (reads_bytes h.of_append.2)

theorem reads_output {output : JailOutput} (h : SizeOk (putOutput output)) :
    Reads takeOutput (putOutput output) output := by
  cases output with
  | pong => exact reads_unit rfl
  | wasmLoaded => exact reads_unit rfl
  | wasmResult result => exact (reads_u32 2).bind ((reads_wasmResult h.of_append.2).map _)
  | wasmUnloaded => exact reads_unit rfl
  | yaraRulesLoaded => exact reads_unit rfl
  | yaraScanResult results =>
    refine (reads_u32 5).bind ((reads_seq h.of_append.2 ?_ ?_).map _)
    · intro m _ hnil
      simp only [putMatch, List.append_eq_nil_iff] at hnil
      exact putStr_ne_nil _ hnil.2
    · exact fun m _ => reads_match
  | yaraUnloaded => exact reads_unit rfl
  | shutdownAck => exact reads_unit rfl

theorem reads_result {result : JailResult} (h : SizeOk (putResult result)) :
    Reads takeResult (putResult result) result := by
  cases result with
  | ok output => exact (reads_u32 0).bind ((reads_output h.of_append.2).map _)
  | err dto => exact (reads_u32 1).bind ((reads_errorDto h.of_append.2).map _)

theorem responseSerde_roundTrips : responseSerde.RoundTrips :=
  serdeOf_roundTrips fun _ h =>
    ((((reads_u32 _).map _).seq (reads_u16 _)).seq (reads_u64 _)).seq (reads_result h.of_append.2)

end Synvoid.Jail
