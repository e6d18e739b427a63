import Synvoid.Http.HeaderMap

/-! # HTTP/1 message framing

    Model of `validate_transfer_framing` (`synvoid-http/src/framing.rs`) and of
    `RequestSmugglingDetector::check_headers`
    (`synvoid-waf/src/attack_detection/request_smuggling.rs`).

    What `validate_transfer_framing` accepts is framed in one way
    (`LengthFraming` or `CodedFraming`): by one length, or by codings of which
    `chunked` can only be the last. `identity` alone is accepted as well, as a
    coding that does nothing. The detector is a filter of header shapes
    (`Screened`): it has no list of codings, and left open here is what it does
    with values that are not text, with a plus sign in a length and with
    `chunked` several times in one line.
-/

namespace Synvoid.Http

open Synvoid.Framework

/-! ### `framing.rs` -/

inductive FramingError where
  | duplicateContentLength
  | contentLengthAndTransferEncoding
  | unsupportedTransferCoding
  | invalidContentLength
  | duplicateHost
  | invalidHost
  deriving DecidableEq

def u64Max : Nat := 2 ^ 64 - 1

/-- The code is for 64-bit machines. -/
def usizeMax : Nat := u64Max

def supportedTransferCodings : List Str := ["chunked".toList, "identity".toList]

/-- The loop of `parse_content_lengths`. -/
def contentLengthsFrom (canonical : Option Nat) :
    List HeaderValue → Except FramingError (Option Nat)
  | [] => .ok canonical
  | value :: rest =>
      match value.toStr with
      | none => .error .invalidContentLength
      | some raw =>
          let trimmed := trim raw
          if trimmed = [] ∨ ¬ trimmed.all Char.isDigit then .error .invalidContentLength
          else
            match parseUnsigned usizeMax trimmed with
            | none => .error .invalidContentLength
            | some parsed =>
                match canonical with
                | some first =>
                    if first ≠ parsed then .error .duplicateContentLength
                    else contentLengthsFrom canonical rest
                | none => contentLengthsFrom (some parsed) rest

def parseContentLengths (headers : HeaderMap) : Except FramingError (Option Nat) :=
  let values := headers.getAll "content-length"
  if values.isEmpty then .ok none
  else do
    let canonical ← contentLengthsFrom none values
    if values.length > 1 then .error .duplicateContentLength else .ok canonical

/-- One entry of a list of codings, without its parameters. -/
def codingName (token : Str) : Str := (trim ((token.splitOn ';').headD [])).map Char.toLower

def codingsFrom : List Str → Except FramingError (List Str)
  | [] => .ok []
  | token :: rest =>
      if codingName token = [] then .error .unsupportedTransferCoding
      else do
        let codings ← codingsFrom rest
        .ok (codingName token :: codings)

def codingLines : List HeaderValue → Except FramingError (List Str)
  | [] => .ok []
  | value :: rest =>
      match value.toStr with
      | none => .error .unsupportedTransferCoding
      | some raw => do
          let codings ← codingsFrom (raw.splitOn ',')
          let more ← codingLines rest
          .ok (codings ++ more)

def transferCodings (headers : HeaderMap) : Except FramingError (List Str) :=
  codingLines (headers.getAll "transfer-encoding")

def chunked : Str := "chunked".toList

def validateTransferFraming (headers : HeaderMap) : Except FramingError (Option Nat) := do
  let contentLength ← parseContentLengths headers
  let codings ← transferCodings headers
  if codings = [] then .ok contentLength
  else if contentLength.isSome then .error .contentLengthAndTransferEncoding
  else if ¬ codings.all supportedTransferCodings.contains then .error .unsupportedTransferCoding
  else
    let chunkedCount := codings.count chunked
    if chunkedCount > 1 then .error .unsupportedTransferCoding
    else if chunkedCount = 1 ∧ codings.getLast? ≠ some chunked then
      .error .unsupportedTransferCoding
    else .ok none

/-! ### `request_smuggling.rs` -/

inductive AttackType where
  | requestSmuggling
  deriving DecidableEq

inductive InputLocation where
  | header (name : String)
  deriving DecidableEq

structure AttackDetectionResult where
  attackType : AttackType
  fingerprint : Option String
  matchedPattern : Option Str
  inputLocation : InputLocation
  deriving DecidableEq

/-- The results of this detector. -/
def smuggling (fingerprint : String) (pattern : Str) (header : String) : AttackDetectionResult where
  attackType := .requestSmuggling
  fingerprint := some fingerprint
  matchedPattern := some pattern
  inputLocation := .header header

/-- The entries of a list of codings; `to_lowercase`, as all of it is ASCII. -/
def teTokens (te : Str) : List Str := (te.splitOn ',').map fun v => (trim v).map Char.toLower

def teContainsChunked (te : Str) : Bool := (teTokens te).any (· == chunked)

def teContainsChunkedWithOther (te : Str) : Bool :=
  if (te.splitOn ',').length < 2 then false
  else (teTokens te).any (· == chunked) && (teTokens te).any (· != chunked)

def teContainsIdentityAndChunked (te : Str) : Bool :=
  let tokens := ((te.map Char.toLower).splitOn ',').map trim
  tokens.any (· == "identity".toList) && tokens.any (· == chunked)

def teHasObfuscatedValues (te : Str) : Bool :=
  (te.splitOn ',').any fun v =>
    (trim v).head? == some 'x' || decide ("/x".toList <:+: trim v)

def conflictPattern (headers : HeaderMap) : Str :=
  match (headers.get "transfer-encoding").bind HeaderValue.toStr with
  | some te =>
      "Content-Length + Transfer-Encoding: ".toList ++ if teContainsChunked te then chunked else te
  | none => "Content-Length + Transfer-Encoding".toList

def checkCoding (headers : HeaderMap) : Option AttackDetectionResult :=
  match (headers.get "transfer-encoding").bind HeaderValue.toStr with
  | none => none
  | some te =>
      if teContainsChunkedWithOther te then some (smuggling "multiple_te" te "transfer-encoding")
      else if teHasObfuscatedValues te || teContainsIdentityAndChunked te then
        some (smuggling "obfuscated_te" te "transfer-encoding")
      else none

def maxContentLength : Nat := 10000000

def checkLength (headers : HeaderMap) : Option AttackDetectionResult :=
  match (headers.get "content-length").bind HeaderValue.toStr with
  | none => none
  | some cl =>
      match parseUnsigned u64Max cl with
      | some n =>
          if n > maxContentLength then
            some (smuggling "large_cl" ("Content-Length: ".toList ++ decimal n) "content-length")
          else none
      | none => some (smuggling "invalid_cl" cl "content-length")

def crlfHeaders : List String := ["x-forwarded-host", "x-original-url", "x-rewrite-url", "x-host"]

def checkCrlf (headers : HeaderMap) (name : String) : Option AttackDetectionResult :=
  match (headers.get name).bind HeaderValue.toStr with
  | none => none
  | some value =>
      if value.contains '\r' || value.contains '\n' then
        some (smuggling "crlf_injection" (name.toList ++ ": ".toList ++ value) name)
      else none

def checkHeaders (headers : HeaderMap) : Option AttackDetectionResult :=
  let clValues := headers.getAll "content-length"
  let teValues := headers.getAll "transfer-encoding"
  if clValues.length > 1 then
    some (smuggling "duplicate_cl" "Multiple Content-Length headers".toList "content-length")
  else if teValues.length > 1 then
    some (smuggling "duplicate_te" "Multiple Transfer-Encoding headers".toList "transfer-encoding")
  else if !clValues.isEmpty && !teValues.isEmpty then
    some (smuggling "cl_te_conflict" (conflictPattern headers) "transfer-encoding")
  else
    (checkCoding headers).or
      ((checkLength headers).or (crlfHeaders.findSome? (checkCrlf headers)))

/-! ### Framings -/

/-- The names of all transfer codings, over all lines. -/
def codingNames (headers : HeaderMap) : List Str :=
  (headers.getAll "transfer-encoding").flatMap fun value => (value.chars.splitOn ',').map codingName

/-- The framing of the message does not depend on who reads it: by one length in
    digits, or by codings that end in the only `chunked`. -/
def Unambiguous (headers : HeaderMap) : Prop :=
  (headers.getAll "transfer-encoding" = [] ∧ (headers.getAll "content-length").length ≤ 1 ∧
    ∀ value ∈ headers.getAll "content-length",
      value.chars ≠ [] ∧ value.chars.all Char.isDigit = true) ∨
  (headers.getAll "content-length" = [] ∧ (codingNames headers).count chunked = 1 ∧
    (codingNames headers).getLast? = some chunked)

/-- Framing by length: at most one, of digits but for blanks around them. -/
structure LengthFraming (headers : HeaderMap) (length : Option Nat) : Prop where
  noCoding : headers.getAll "transfer-encoding" = []
  once : (headers.getAll "content-length").length ≤ 1
  digits : ∀ value ∈ headers.getAll "content-length",
    trim value.chars ≠ [] ∧ (trim value.chars).all Char.isDigit = true
  value : length =
    (headers.getAll "content-length").head?.map fun value => decimalValue (trim value.chars)

/-- Framing by codings: `chunked` at most once, and then as the last one, and
    no others that do something. -/
structure CodedFraming (headers : HeaderMap) : Prop where
  noLength : headers.getAll "content-length" = []
  supported : ∀ coding ∈ codingNames headers, coding ∈ supportedTransferCodings
  once : (codingNames headers).count chunked ≤ 1
  last : chunked ∈ codingNames headers → (codingNames headers).getLast? = some chunked

/-- Headers that the detector lets pass. -/
structure Screened (headers : HeaderMap) : Prop where
  lengthOnce : (headers.getAll "content-length").length ≤ 1
  codingOnce : (headers.getAll "transfer-encoding").length ≤ 1
  notBoth : headers.getAll "content-length" = [] ∨ headers.getAll "transfer-encoding" = []
  digits : ∀ value ∈ headers.getAll "content-length", ∀ text, value.toStr = some text →
    text.head? ≠ some '+' →
    text ≠ [] ∧ text.all Char.isDigit = true ∧ decimalValue text ≤ maxContentLength
  chunkedAlone : ∀ value ∈ headers.getAll "transfer-encoding", ∀ text, value.toStr = some text →
    chunked ∈ teTokens text → ∀ token ∈ teTokens text, token = chunked

/-! ### What is accepted -/

/-- Digits do not begin with a plus sign. -/
theorem head_ne_plus_of_digits {s : Str} (h : s.all Char.isDigit = true) : s.head? ≠ some '+' := by
  intro hplus
  have := List.all_eq_true.mp h '+' (List.mem_of_head? hplus)
  simp at this

theorem contentLengthsFrom_single {value : HeaderValue} {n : Option Nat}
    (h : contentLengthsFrom none [value] = .ok n) :
    trim value.chars ≠ [] ∧ (trim value.chars).all Char.isDigit = true ∧
      n = some (decimalValue (trim value.chars)) := by
  unfold contentLengthsFrom at h
  cases htext : value.toStr with
  | none => simp [htext] at h
  | some raw =>
    simp only [htext] at h
    rw [HeaderValue.chars_of_toStr htext]
    split at h
    · cases h
    · next hdigits =>
      push Not at hdigits
      cases hparse : parseUnsigned usizeMax (trim raw) with
      | none => simp [hparse] at h
      | some parsed =>
        simp only [hparse, contentLengthsFrom] at h
        obtain rfl := Except.ok.inj h
        have hvalue := digits_of_parseUnsigned hparse (head_ne_plus_of_digits hdigits.2)
        exact ⟨hdigits.1, hdigits.2, congrArg some hvalue.2.2.1⟩

theorem parseContentLengths_ok {headers : HeaderMap} {n : Option Nat}
    (h : parseContentLengths headers = .ok n) :
    (headers.getAll "content-length").length ≤ 1 ∧
    (∀ value ∈ headers.getAll "content-length",
      trim value.chars ≠ [] ∧ (trim value.chars).all Char.isDigit = true) ∧
    n = (headers.getAll "content-length").head?.map fun value =>
      decimalValue (trim value.chars) := by
  unfold parseContentLengths at h
  cases hlines : headers.getAll "content-length" with
  | nil =>
    rw [hlines] at h
    obtain rfl := Except.ok.inj h
    exact ⟨Nat.zero_le _, by simp, rfl⟩
  | cons value rest =>
    rw [hlines] at h
    simp only [List.isEmpty_cons, Bool.false_eq_true, if_false] at h
    obtain ⟨canonical, hfrom, hrest⟩ := bind_eq_ok h
    split at hrest
    · cases hrest
    · next hone =>
      obtain rfl : rest = [] := List.length_eq_zero_iff.mp (by simpa using hone)
      obtain rfl := Except.ok.inj hrest
      obtain ⟨hne, hdigits, hvalue⟩ := contentLengthsFrom_single hfrom
      refine ⟨Nat.le_refl _, ?_, hvalue⟩
      intro v hv
      obtain rfl := List.mem_singleton.mp hv
      exact ⟨hne, hdigits⟩

theorem codingsFrom_ok {tokens codings : List Str} (h : codingsFrom tokens = .ok codings) :
    codings = tokens.map codingName := by
  induction tokens generalizing codings with
  | nil => exact (Except.ok.inj h).symm
  | cons token rest ih =>
    unfold codingsFrom at h
    split at h
    · cases h
    · obtain ⟨more, hmore, h⟩ := bind_eq_ok h
      obtain rfl := Except.ok.inj h
      rw [ih hmore, List.map_cons]

theorem codingLines_ok {values : List HeaderValue} {codings : List Str}
    (h : codingLines values = .ok codings) :
    codings = values.flatMap fun value => (value.chars.splitOn ',').map codingName := by
  induction values generalizing codings with
  | nil => exact (Except.ok.inj h).symm
  | cons value rest ih =>
    unfold codingLines at h
    cases htext : value.toStr with
    | none => simp [htext] at h
    | some raw =>
      simp only [htext] at h
      obtain ⟨first, hfirst, h⟩ := bind_eq_ok h
      obtain ⟨more, hmore, h⟩ := bind_eq_ok h
      obtain rfl := Except.ok.inj h
      rw [codingsFrom_ok hfirst, ih hmore, List.flatMap_cons, HeaderValue.chars_of_toStr htext]

/-- A line has at least one coding. -/
theorem codingNames_eq_nil {headers : HeaderMap} (h : codingNames headers = []) :
    headers.getAll "transfer-encoding" = [] := by
  cases hlines : headers.getAll "transfer-encoding" with
  | nil => rfl
  | cons value rest =>
    unfold codingNames at h
    rw [hlines, List.flatMap_cons] at h
    have hsplit := (List.append_eq_nil_iff.mp h).1
    exact absurd (List.map_eq_nil_iff.mp hsplit) (List.splitOn_ne_nil _ _)

/-- **What `validate_transfer_framing` accepts.** -/
theorem validateTransferFraming_ok {headers : HeaderMap} {n : Option Nat}
    (h : validateTransferFraming headers = .ok n) :
    LengthFraming headers n ∨ (CodedFraming headers ∧ n = none) := by
  unfold validateTransferFraming at h
  obtain ⟨contentLength, hlength, h⟩ := bind_eq_ok h
  obtain ⟨codings, hcodings, h⟩ := bind_eq_ok h
  obtain rfl : codings = codingNames headers := codingLines_ok hcodings
  obtain ⟨honce, hdigits, hvalue⟩ := parseContentLengths_ok hlength
  split at h
  · next hnone =>
    obtain rfl := Except.ok.inj h
    exact .inl ⟨codingNames_eq_nil hnone, honce, hdigits, hvalue⟩
  · split at h
    · cases h
    · next hno =>
      split at h
      · cases h
      · next hsupported =>
        simp only at h
        split at h
        · cases h
        · next hcount =>
          split at h
          · cases h
          · next hlast =>
            refine .inr ⟨⟨?_, ?_, ?_, ?_⟩, (Except.ok.inj h).symm⟩
            · rw [hvalue] at hno
              simpa using hno
            · simpa using hsupported
            · exact Nat.not_lt.mp hcount
            · intro hmem
              have hpos := List.count_pos_iff.mpr hmem
              by_contra hne
              exact hlast ⟨by omega, hne⟩

/-- The only line under a name is the one that `get` gives. -/
theorem get_of_once {headers : HeaderMap} {name : String} {value : HeaderValue}
    (honce : (headers.getAll name).length ≤ 1) (hmem : value ∈ headers.getAll name) :
    headers.get name = some value := by
  unfold HeaderMap.get
  cases hlines : headers.getAll name with
  | nil => simp [hlines] at hmem
  | cons first rest =>
    rw [hlines] at honce hmem
    obtain rfl : rest = [] := List.length_eq_zero_iff.mp (by simpa using honce)
    obtain rfl := List.mem_singleton.mp hmem
    rfl

theorem checkLength_none {headers : HeaderMap} (h : checkLength headers = none)
    {value : HeaderValue} (hget : headers.get "content-length" = some value) {text : Str}
    (htext : value.toStr = some text) (hsign : text.head? ≠ some '+') :
    text ≠ [] ∧ text.all Char.isDigit = true ∧ decimalValue text ≤ maxContentLength := by
  unfold checkLength at h
  rw [hget, Option.bind_some, htext] at h
  cases hparse : parseUnsigned u64Max text with
  | none => simp [hparse] at h
  | some n =>
    simp only [hparse] at h
    obtain ⟨hne, hdigits, rfl, -⟩ := digits_of_parseUnsigned hparse hsign
    split at h
    · cases h
    · next hmax => exact ⟨hne, hdigits, Nat.not_lt.mp hmax⟩

theorem checkCoding_none {headers : HeaderMap} (h : checkCoding headers = none)
    {value : HeaderValue} (hget : headers.get "transfer-encoding" = some value) {text : Str}
    (htext : value.toStr = some text) (hchunked : chunked ∈ teTokens text) :
    ∀ token ∈ teTokens text, token = chunked := by
  unfold checkCoding at h
  rw [hget, Option.bind_some, htext] at h
  simp only at h
  split at h
  · cases h
  · next hother =>
    unfold teContainsChunkedWithOther at hother
    split at hother
    · next hshort =>
      -- a single coding, which is the one that is there
      have hone : (teTokens text).length ≤ 1 := by
        unfold teTokens
        rw [List.length_map]
        omega
      intro token htoken
      obtain ⟨single, hsingle⟩ := List.length_eq_one_iff.mp
        (Nat.le_antisymm hone (List.length_pos_of_mem hchunked))
      rw [hsingle, List.mem_singleton] at htoken hchunked
      rw [htoken, hchunked]
    · simp only [Bool.and_eq_true, not_and, List.any_eq_true, beq_iff_eq, bne_iff_ne] at hother
      intro token htoken
      by_contra hne
      exact hother ⟨chunked, hchunked, rfl⟩ ⟨token, htoken, hne⟩

/-- **What the detector lets pass.** -/
theorem screened_of_checkHeaders {headers : HeaderMap} (h : checkHeaders headers = none) :
    Screened headers := by
  unfold checkHeaders at h
  simp only at h
  split at h
  · cases h
  · next hlength =>
    split at h
    · cases h
    · next hcoding =>
      split at h
      · cases h
      · next hboth =>
        rw [Option.or_eq_none_iff, Option.or_eq_none_iff] at h
        have hlengthOnce := Nat.not_lt.mp hlength
        have hcodingOnce := Nat.not_lt.mp hcoding
        refine ⟨hlengthOnce, hcodingOnce, ?_, ?_, ?_⟩
        · simpa [← or_iff_not_imp_left] using hboth
        · intro value hvalue text htext hsign
          exact checkLength_none h.2.1 (get_of_once hlengthOnce hvalue) htext hsign
        · intro value hvalue text htext hchunked
          exact checkCoding_none h.1 (get_of_once hcodingOnce hvalue) htext hchunked

/-- **Accepted framing.** -/
theorem accepted_framing (headers : HeaderMap) :
    (∀ n, validateTransferFraming headers = .ok n →
      LengthFraming headers n ∨ (CodedFraming headers ∧ n = none)) ∧
    (checkHeaders headers = none → Screened headers) :=
  ⟨fun _ => validateTransferFraming_ok, screened_of_checkHeaders⟩

/-- A request with a length in digits passes both. -/
theorem accepted_framing_length :
    LengthFraming (.ofLines [("content-length", "42")]) (some 42) ∧
    Screened (.ofLines [("content-length", "42")]) := by
  obtain ⟨hvalidate, hcheck⟩ := accepted_framing (.ofLines [("content-length", "42")])
  refine ⟨?_, hcheck (by decide)⟩
  rcases hvalidate (some 42) (by decide) with h | ⟨-, h⟩
  · exact h
  · cases h

/-- `identity` alone passes both, and is not `chunked`. -/
theorem identity_accepted :
    ¬ (∀ headers : HeaderMap,
      (∀ n, validateTransferFraming headers = .ok n → Unambiguous headers) ∧
      (checkHeaders headers = none → Unambiguous headers)) := by
  intro h
  have hidentity := (h (.ofLines [("transfer-encoding", "identity")])).1 none (by decide)
  rcases hidentity with ⟨hnone, -, -⟩ | ⟨-, hcount, -⟩
  · exact absurd (congrArg List.length hnone) (by decide)
  · exact absurd hcount (by decide)

example : checkHeaders (.ofLines [("transfer-encoding", "gzip")]) = none := by decide

example : validateTransferFraming (.ofLines [("transfer-encoding", "identity, Chunked;q=1")]) =
    .ok none := by decide

end Synvoid.Http
