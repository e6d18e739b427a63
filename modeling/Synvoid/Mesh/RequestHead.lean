import Synvoid.Mesh.ResponseHead

/-! # Reading a client's request head

    Model of `read_http_request_head` and `parse_http_body_framing`
    (`synvoid-mesh/src/mesh/transport_peer.rs`), the siblings of the readers of a
    response head. Both parsers of the framing look at a line in the same way
    (`fieldValue`). They differ in what they do with a line without a colon, which the
    one for requests passes over, and with the first line, which it takes for a
    header line.

    `Says` states what the header lines must be for a result of either parser
    (`bodyFramingLines_ok_iff`, `parseHeaderLines_ok_iff`).
-/

namespace Synvoid.Mesh

open Synvoid.Framework
open Synvoid.Http (eqIgnoreAsciiCase)

structure FramedHttpRequestHead where
  headerBytes : Bytes
  bodyPrefix : Bytes
  contentLength : Option Nat
  chunked : Bool
  deriving DecidableEq

/-- The errors of reading a head. -/
inductive HttpFramingError where
  | headerTooLarge
  | headerFramingTimeout
  | invalidContentLength (msg : Str)
  | unsupportedTransferEncoding (msg : Str)
  | malformedHeaders (msg : String)
  | io (msg : String)
  deriving DecidableEq

section Head

-- `str::to_lowercase`
variable (toLowercase : Str → Str)

/-- A field, after the colon was found. -/
def bodyField (name value : Str) (contentLength : Option Nat) (chunked : Bool) :
    Except HttpFramingError (Option Nat × Bool) :=
  if eqIgnoreAsciiCase name "content-length".toList then
    match parseUnsigned usizeMax value with
    | none => .error (.invalidContentLength ("non-numeric value: ".toList ++ value))
    | some v =>
        match contentLength with
        | some existing =>
            if existing ≠ v then
              .error (.invalidContentLength ("conflicting values: ".toList ++ decimal existing ++
                " and ".toList ++ decimal v))
            else .ok (some v, chunked)
        | none => .ok (some v, chunked)
  else if eqIgnoreAsciiCase name "transfer-encoding".toList then
    if toLowercase value = "chunked".toList then .ok (contentLength, true)
    else .error (.unsupportedTransferEncoding (toLowercase value))
  else .ok (contentLength, chunked)

/-- The loop over all lines. -/
def bodyFramingLines : List Str → Option Nat → Bool → Except HttpFramingError (Option Nat × Bool)
  | [], contentLength, chunked => .ok (contentLength, chunked)
  | line :: rest, contentLength, chunked =>
      let trimmed := trim line
      if trimmed = [] then bodyFramingLines rest contentLength chunked
      else
        match splitOnce ':' trimmed with
        | none => bodyFramingLines rest contentLength chunked
        | some pair => do
            let (contentLength, chunked) ←
              bodyField toLowercase (trim pair.1) (trim pair.2) contentLength chunked
            bodyFramingLines rest contentLength chunked

def parseHttpBodyFraming (header : Str) : Except HttpFramingError (Option Nat × Bool) := do
  let (contentLength, chunked) ← bodyFramingLines toLowercase (lines header) none false
  if chunked && contentLength.isSome then
    .error (.invalidContentLength
      "both Content-Length and Transfer-Encoding: chunked present".toList)
  else .ok (contentLength, chunked)

def requestReadError (e : IoError) : HttpFramingError :=
  if e = elapsed then .headerFramingTimeout else .io e.message

/-- The loop of `read_http_request_head`. Every round moves some bytes into the
    buffer. -/
def requestHeadLoop (maxHeaderBytes : Nat) : Nat → Bytes → Source →
    Except HttpFramingError FramedHttpRequestHead × Source
  | 0, _, source => (.error .headerFramingTimeout, source)
  | fuel + 1, buffer, source =>
      if maxHeaderBytes ≤ buffer.length then (.error .headerTooLarge, source)
      else
        let readSize := min (maxHeaderBytes - buffer.length) 4096
        match source.read (readSize - 1) with
        | (.error e, source) => (.error (requestReadError e), source)
        | (.ok got, source) =>
            if got = [] then
              (.error (.malformedHeaders "Connection closed before header terminator"), source)
            else
              let buffer := buffer ++ got
              if buffer.length > maxHeaderBytes then (.error .headerTooLarge, source)
              else
                match position headEnd buffer with
                | none => requestHeadLoop maxHeaderBytes fuel buffer source
                | some pos =>
                    let headerBytes := buffer.take (pos + 4)
                    match parseHttpBodyFraming toLowercase (fromUtf8Lossy headerBytes) with
                    | .error e => (.error e, source)
                    | .ok (contentLength, chunked) =>
                        (.ok {
                          headerBytes
                          bodyPrefix := buffer.drop (pos + 4)
                          contentLength
                          chunked }, source)

def readHttpRequestHead (source : Source) (firstByte : UInt8) (maxHeaderBytes : Nat) :
    Except HttpFramingError FramedHttpRequestHead × Source :=
  if maxHeaderBytes < 4 then (.error .headerTooLarge, source)
  else requestHeadLoop toLowercase maxHeaderBytes (source.size + 1) [firstByte] source

end Head

/-! ### What the header lines say -/

/-- The value of a line that is read as a field of the name `key`. -/
def fieldValue (key : String) (line : Str) : Option Str :=
  match splitOnce ':' (trim line) with
  | none => none
  | some pair => if eqIgnoreAsciiCase (trim pair.1) key.toList then some (trim pair.2) else none

def HasColon (line : Str) : Prop := trim line = [] ∨ (splitOnce ':' (trim line)).isSome = true

section Says
variable (toLowercase : Str → Str)

/-- The lines lead from `contentLength` and `chunked` to `contentLength'` and
    `chunked'`. -/
structure Says (header : List Str) (contentLength : Option Nat) (chunked : Bool)
    (contentLength' : Option Nat) (chunked' : Bool) : Prop where
  lengths : ∀ line ∈ header, ∀ value, fieldValue "content-length" line = some value →
    ∃ n, parseUnsigned usizeMax value = some n ∧ contentLength' = some n
  kept : contentLength ≠ none → contentLength' = contentLength
  absent : (∀ line ∈ header, fieldValue "content-length" line = none) →
    contentLength' = contentLength
  codings : ∀ line ∈ header, ∀ value, fieldValue "transfer-encoding" line = some value →
    toLowercase value = "chunked".toList
  coded : chunked' = (chunked ||
    header.any fun line => (fieldValue "transfer-encoding" line).isSome)

variable {toLowercase} {line : Str} {rest : List Str} {contentLength contentLength' : Option Nat}
  {chunked chunked' : Bool}

theorem says_nil : Says toLowercase [] contentLength chunked contentLength' chunked' ↔
    contentLength' = contentLength ∧ chunked' = chunked := by
  refine ⟨fun h => ⟨h.absent (by simp), by simpa using h.coded⟩, ?_⟩
  rintro ⟨rfl, rfl⟩
  exact ⟨by simp, fun _ => rfl, fun _ => rfl, by simp, by simp⟩

theorem says_cons_length {value : Str} (hlength : fieldValue "content-length" line = some value)
    (hcoding : fieldValue "transfer-encoding" line = none) :
    Says toLowercase (line :: rest) contentLength chunked contentLength' chunked' ↔
      ∃ n, parseUnsigned usizeMax value = some n ∧
        (contentLength = none ∨ contentLength = some n) ∧
        Says toLowercase rest (some n) chunked contentLength' chunked' := by
  constructor
  · intro h
    obtain ⟨n, hn, hresult⟩ := h.lengths line (by simp) value hlength
    refine ⟨n, hn, ?_, fun l hl => h.lengths l (by simp [hl]), fun _ => hresult, fun _ => hresult,
      fun l hl => h.codings l (by simp [hl]), by simpa [hcoding] using h.coded⟩
    cases hold : contentLength with
    | none => exact .inl rfl
    | some m =>
      have hkept := h.kept (by simp [hold])
      rw [hold, hresult] at hkept
      exact .inr hkept.symm
  · rintro ⟨n, hn, hold, h⟩
    have hresult := h.kept (by simp)
    refine ⟨?_, ?_, ?_, ?_, by simpa [hcoding] using h.coded⟩
    · intro l hl v hv
      rcases List.mem_cons.mp hl with rfl | hl
      · rw [hlength] at hv
        obtain rfl := Option.some.inj hv
        exact ⟨n, hn, hresult⟩
      · exact h.lengths l hl v hv
    · rintro hne
      rw [hresult]
      exact (hold.resolve_left hne).symm
    · intro hnone
      have := hnone line (by simp)
      rw [hlength] at this
      cases this
    · intro l hl v hv
      rcases List.mem_cons.mp hl with rfl | hl
      · rw [hcoding] at hv
        cases hv
      · exact h.codings l hl v hv

theorem says_cons_other (hlength : fieldValue "content-length" line = none) :
    Says toLowercase (line :: rest) contentLength chunked contentLength' chunked' ↔
      (∀ value, fieldValue "transfer-encoding" line = some value →
        toLowercase value = "chunked".toList) ∧
      Says toLowercase rest contentLength
        (chunked || (fieldValue "transfer-encoding" line).isSome) contentLength' chunked' := by
  constructor
  · intro h
    refine ⟨h.codings line (by simp), fun l hl => h.lengths l (by simp [hl]), h.kept,
      fun hnone => ?_,
      fun l hl => h.codings l (by simp [hl]), by simpa [Bool.or_assoc] using h.coded⟩
    refine h.absent fun l hl => ?_
    rcases List.mem_cons.mp hl with rfl | hl
    · exact hlength
    · exact hnone l hl
  · rintro ⟨hcoding, h⟩
    refine ⟨?_, h.kept, fun hnone => h.absent fun l hl => hnone l (by simp [hl]), ?_,
      by simpa [Bool.or_assoc] using h.coded⟩
    · intro l hl v hv
      rcases List.mem_cons.mp hl with rfl | hl
      · rw [hlength] at hv
        cases hv
      · exact h.lengths l hl v hv
    · intro l hl v hv
      rcases List.mem_cons.mp hl with rfl | hl
      · exact hcoding v hv
      · exact h.codings l hl v hv

/-! ### The two parsers -/

/-- No name is both. -/
theorem not_coding_of_length {name : Str}
    (h : eqIgnoreAsciiCase name "content-length".toList = true) :
    eqIgnoreAsciiCase name "transfer-encoding".toList = false := by
  unfold eqIgnoreAsciiCase at h ⊢
  rw [beq_iff_eq.mp h]
  decide

/-- A line that is no field of either name. -/
theorem bodyFramingLines_plain (hsplit : splitOnce ':' (trim line) = none) :
    bodyFramingLines toLowercase (line :: rest) contentLength chunked =
      bodyFramingLines toLowercase rest contentLength chunked := by
  rw [bodyFramingLines]
  simp only [hsplit, ite_self]

theorem bodyFramingLines_field {pair : Str × Str} (hsplit : splitOnce ':' (trim line) = some pair) :
    bodyFramingLines toLowercase (line :: rest) contentLength chunked =
      (bodyField toLowercase (trim pair.1) (trim pair.2) contentLength chunked).bind
        fun framing => bodyFramingLines toLowercase rest framing.1 framing.2 := by
  have hne : trim line ≠ [] := by
    intro hnil
    rw [hnil] at hsplit
    cases hsplit
  rw [bodyFramingLines]
  simp only [if_neg hne, hsplit]
  rfl

theorem bodyFramingLines_ok_iff (header : List Str) :
    bodyFramingLines toLowercase header contentLength chunked = .ok (contentLength', chunked') ↔
      Says toLowercase header contentLength chunked contentLength' chunked' := by
  induction header generalizing contentLength chunked with
  | nil =>
    rw [bodyFramingLines, says_nil]
    simp [eq_comm]
  | cons line rest ih =>
    cases hsplit : splitOnce ':' (trim line) with
    | none =>
      have hlength : fieldValue "content-length" line = none := by simp [fieldValue, hsplit]
      have hcoding : fieldValue "transfer-encoding" line = none := by simp [fieldValue, hsplit]
      rw [bodyFramingLines_plain hsplit, ih, says_cons_other hlength]
      simp [hcoding]
    | some pair =>
      rw [bodyFramingLines_field hsplit]
      unfold bodyField
      by_cases hname : eqIgnoreAsciiCase (trim pair.1) "content-length".toList = true
      · have hlength : fieldValue "content-length" line = some (trim pair.2) := by
          simp only [fieldValue, hsplit, hname, if_true]
        have hcoding : fieldValue "transfer-encoding" line = none := by
          simp only [fieldValue, hsplit, not_coding_of_length hname, Bool.false_eq_true, if_false]
        rw [if_pos hname, says_cons_length hlength hcoding]
        cases parseUnsigned usizeMax (trim pair.2) with
        | none => simp [Except.bind]
        | some n =>
          simp only [Option.some.injEq, exists_eq_left']
          cases contentLength with
          | none => simp [Except.bind, ih]
          | some m =>
            by_cases hm : m = n
            · simp [Except.bind, ih, hm]
            · simp [Except.bind, hm]
      · have hlength : fieldValue "content-length" line = none := by
          simp only [fieldValue, hsplit, hname, Bool.false_eq_true, if_false]
        rw [if_neg hname, says_cons_other hlength]
        by_cases hname' : eqIgnoreAsciiCase (trim pair.1) "transfer-encoding".toList = true
        · have hcoding : fieldValue "transfer-encoding" line = some (trim pair.2) := by
            simp only [fieldValue, hsplit, hname', if_true]
          rw [if_pos hname', hcoding]
          by_cases hvalue : toLowercase (trim pair.2) = "chunked".toList
          · simp [Except.bind, ih, hvalue]
          · rw [if_neg hvalue]
            exact iff_of_false (by simp [Except.bind]) fun h => hvalue (h.1 _ rfl)
        · have hcoding : fieldValue "transfer-encoding" line = none := by
            simp only [fieldValue, hsplit, hname', Bool.false_eq_true, if_false]
          rw [if_neg hname', hcoding]
          simp [Except.bind, ih]

variable (toLowercase) in
/-- A field of a response is read as one of a request. -/
theorem parseField_of_bodyField (name value : Str) (contentLength : Option Nat)
    (chunked close : Bool) :
    ∃ close', ∀ framing,
      parseField toLowercase name value ⟨contentLength, chunked, close⟩ = .ok framing ↔
        bodyField toLowercase name value contentLength chunked =
          .ok (framing.contentLength, framing.chunked) ∧ framing.connectionClose = close' := by
  have hframing (f g : HttpResponseFraming) : f = g ↔
      (f.contentLength, f.chunked) = (g.contentLength, g.chunked) ∧
        g.connectionClose = f.connectionClose := by
    obtain ⟨fl, fc, fx⟩ := f
    obtain ⟨gl, gc, gx⟩ := g
    simp only [HttpResponseFraming.mk.injEq, Prod.mk.injEq, and_assoc, @eq_comm _ gx]
  unfold parseField bodyField
  by_cases hlength : eqIgnoreAsciiCase name "content-length".toList = true
  · simp only [hlength, if_true]
    refine ⟨close, fun framing => ?_⟩
    cases parseUnsigned usizeMax value with
    | none => simp
    | some n =>
      cases contentLength with
      | none => simp only [Except.ok.injEq, hframing]
      | some m =>
        simp only
        split
        · simp
        · simp only [Except.ok.injEq, hframing]
  · simp only [hlength, Bool.false_eq_true, if_false]
    by_cases hcoding : eqIgnoreAsciiCase name "transfer-encoding".toList = true
    · simp only [hcoding, if_true]
      refine ⟨close, fun framing => ?_⟩
      split
      · simp only [Except.ok.injEq, hframing]
      · simp
    · simp only [hcoding, Bool.false_eq_true, if_false]
      split
      · exact ⟨true, fun framing => by simp only [Except.ok.injEq, hframing]⟩
      · exact ⟨close, fun framing => by simp only [Except.ok.injEq, hframing]⟩

/-- The parser for responses gives a result just where every line has a colon and
    the one for requests gives the same. -/
theorem parseHeaderLines_iff (header : List Str) (close : Bool) :
    (∃ close', parseHeaderLines toLowercase ⟨contentLength, chunked, close⟩ header =
        .ok ⟨contentLength', chunked', close'⟩) ↔
      (∀ line ∈ header, HasColon line) ∧
        bodyFramingLines toLowercase header contentLength chunked =
          .ok (contentLength', chunked') := by
  induction header generalizing contentLength chunked close with
  | nil => simp [parseHeaderLines, bodyFramingLines]
  | cons line rest ih =>
    rw [parseHeaderLines, List.forall_mem_cons]
    by_cases hempty : trim line = []
    · have hcolon : HasColon line := .inl hempty
      have hsplit : splitOnce ':' (trim line) = none := by rw [hempty]; rfl
      simp only [hempty, if_true, hcolon, true_and, bodyFramingLines_plain hsplit, ih]
    · cases hsplit : splitOnce ':' (trim line) with
      | none =>
        have hcolon : ¬ HasColon line := by simp [HasColon, hempty, hsplit]
        simp [hempty, hcolon]
      | some pair =>
        have hcolon : HasColon line := .inr (by rw [hsplit]; rfl)
        simp only [hempty, if_false, hcolon, true_and, bodyFramingLines_field hsplit]
        obtain ⟨close', hfield⟩ := parseField_of_bodyField toLowercase (trim pair.1) (trim pair.2)
          contentLength chunked close
        cases hbody : bodyField toLowercase (trim pair.1) (trim pair.2) contentLength chunked with
        | error e =>
          have hparse : ∃ e', parseField toLowercase (trim pair.1) (trim pair.2)
              ⟨contentLength, chunked, close⟩ = .error e' := by
            cases hresult : parseField toLowercase (trim pair.1) (trim pair.2)
                ⟨contentLength, chunked, close⟩ with
            | error e' => exact ⟨e', rfl⟩
            | ok framing =>
              have := ((hfield framing).mp hresult).1
              rw [hbody] at this
              cases this
          obtain ⟨e', hparse⟩ := hparse
          simp [hparse, bind, Except.bind]
        | ok r =>
          have hparse := (hfield ⟨r.1, r.2, close'⟩).mpr ⟨hbody, rfl⟩
          simp only [hparse]
          exact ih close'

/-- What the parser for requests derives from a head. -/
theorem parseHttpBodyFraming_ok_iff {header : Str} :
    parseHttpBodyFraming toLowercase header = .ok (contentLength, chunked) ↔
      Says toLowercase (lines header) none false contentLength chunked ∧
        (chunked && contentLength.isSome) = false := by
  rw [← bodyFramingLines_ok_iff]
  unfold parseHttpBodyFraming
  cases bodyFramingLines toLowercase (lines header) none false with
  | error e => simp [bind, Except.bind]
  | ok framing =>
    obtain ⟨length, coded⟩ := framing
    simp only [bind, Except.bind, Except.ok.injEq, Prod.mk.injEq]
    by_cases hboth : (coded && length.isSome) = true
    · rw [if_pos hboth]
      refine iff_of_false (by simp) ?_
      rintro ⟨⟨rfl, rfl⟩, hnot⟩
      rw [hboth] at hnot
      cases hnot
    · rw [if_neg hboth]
      simp only [Except.ok.injEq, Prod.mk.injEq]
      refine ⟨?_, And.left⟩
      rintro ⟨rfl, rfl⟩
      exact ⟨⟨rfl, rfl⟩, by simpa using hboth⟩

/-- What the parser for responses derives from one. -/
theorem parseHttpResponseFraming_ok_iff {header : Str} :
    (∃ close, parseHttpResponseFraming toLowercase header = .ok ⟨contentLength, chunked, close⟩) ↔
      (∀ line ∈ (lines header).tail, HasColon line) ∧
        Says toLowercase (lines header).tail none false contentLength chunked ∧
        (chunked && contentLength.isSome) = false := by
  rw [← bodyFramingLines_ok_iff, ← and_assoc, ← parseHeaderLines_iff _ false]
  unfold parseHttpResponseFraming
  cases parseHeaderLines toLowercase ⟨none, false, false⟩ (lines header).tail with
  | error e => simp [bind, Except.bind]
  | ok framing =>
    obtain ⟨length, coded, close⟩ := framing
    simp only [bind, Except.bind, Except.ok.injEq, HttpResponseFraming.mk.injEq]
    by_cases hboth : (coded && length.isSome) = true
    · rw [if_pos hboth]
      refine iff_of_false (by simp) ?_
      rintro ⟨⟨close', rfl, rfl, rfl⟩, hnot⟩
      rw [hboth] at hnot
      cases hnot
    · rw [if_neg hboth]
      simp only [Except.ok.injEq, HttpResponseFraming.mk.injEq]
      refine ⟨?_, And.left⟩
      rintro ⟨close', rfl, rfl, rfl⟩
      exact ⟨⟨close, rfl, rfl, rfl⟩, by simpa using hboth⟩

end Says

/-! ### Accepted heads -/

section Accepted
variable (toLowercase : Str → Str) (head : Bytes)

/-- Some stream makes `read_http_request_head` return the head. -/
def AcceptedRequest : Prop :=
  ∃ source firstByte maxHeaderBytes framed source',
    readHttpRequestHead toLowercase source firstByte maxHeaderBytes = (.ok framed, source') ∧
      framed.headerBytes = head

/-- Some buffer makes `try_parse_http_response_head` return it. -/
def AcceptedResponse : Prop :=
  ∃ buffer maxHeaderBytes framed consumed,
    tryParseHttpResponseHead toLowercase buffer maxHeaderBytes = .ok (some (framed, consumed)) ∧
      framed.headerBytes = head

variable {toLowercase head}

theorem requestHeadLoop_ok {maxHeaderBytes fuel : Nat} {buffer : Bytes} {source source' : Source}
    {framed : FramedHttpRequestHead}
    (h : requestHeadLoop toLowercase maxHeaderBytes fuel buffer source = (.ok framed, source')) :
    EndsFirst headEnd framed.headerBytes ∧
      parseHttpBodyFraming toLowercase (fromUtf8Lossy framed.headerBytes) =
        .ok (framed.contentLength, framed.chunked) := by
  induction fuel generalizing buffer source with
  | zero => cases h
  | succ fuel ih =>
    unfold requestHeadLoop at h
    split at h
    · cases h
    cases hread : source.read (min (maxHeaderBytes - buffer.length) 4096 - 1) with
    | mk result source₁ =>
    simp only [hread] at h
    cases result with
    | error e => cases h
    | ok got =>
      simp only at h
      split at h
      · cases h
      split at h
      · cases h
      cases hpos : position headEnd (buffer ++ got) with
      | none =>
        rw [hpos] at h
        exact ih h
      | some pos =>
        rw [hpos] at h
        simp only at h
        cases hparse : parseHttpBodyFraming toLowercase
            (fromUtf8Lossy ((buffer ++ got).take (pos + 4))) with
        | error e =>
          rw [hparse] at h
          cases h
        | ok framing =>
          rw [hparse] at h
          cases h
          exact ⟨(position_some (by decide) hpos).1, hparse⟩

theorem AcceptedRequest.parsed (h : AcceptedRequest toLowercase head) :
    EndsFirst headEnd head ∧ ∃ contentLength chunked,
      parseHttpBodyFraming toLowercase (fromUtf8Lossy head) = .ok (contentLength, chunked) := by
  obtain ⟨source, firstByte, maxHeaderBytes, framed, source', hread, rfl⟩ := h
  unfold readHttpRequestHead at hread
  split at hread
  · cases hread
  · obtain ⟨hends, hparse⟩ := requestHeadLoop_ok hread
    exact ⟨hends, _, _, hparse⟩

theorem AcceptedResponse.parsed (h : AcceptedResponse toLowercase head) :
    EndsFirst headEnd head ∧
      (∃ r, parseHttpResponseStatusLine ((lines (fromUtf8Lossy head)).head?.getD []) = .ok r) ∧
      ∃ framing, parseHttpResponseFraming toLowercase (fromUtf8Lossy head) = .ok framing := by
  obtain ⟨buffer, maxHeaderBytes, framed, consumed, hparse, rfl⟩ := h
  unfold tryParseHttpResponseHead at hparse
  cases hpos : position headEnd buffer with
  | none =>
    rw [hpos] at hparse
    cases hparse
  | some pos =>
    rw [hpos] at hparse
    simp only at hparse
    split at hparse
    · cases hparse
    simp only [bind, Except.bind] at hparse
    split at hparse
    · cases hparse
    next r hstatus =>
    split at hparse
    · cases hparse
    next framing hframing =>
    cases hparse
    exact ⟨(position_some (by decide) hpos).1, ⟨r, hstatus⟩, framing, hframing⟩

end Accepted

end Synvoid.Mesh
