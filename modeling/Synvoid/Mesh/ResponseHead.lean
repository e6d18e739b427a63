import Synvoid.Framework.ByteSource
import Synvoid.Framework.RustStr
import Synvoid.Framework.Slice
import Synvoid.Http.HeaderMap

/-! # Reading a backend's response

    Model of the readers of HTTP/1 response heads and of bodies of a known
    length (`synvoid-mesh/src/mesh/transport_peer.rs`): a response head is
    parsed out of a buffer that is carried over from one informational response
    to the next, and what was read too far is handed to the body reader.

    Reads that a timer ends are reads that fail with `elapsed`, wherever the
    timer is looked at.
-/

namespace Synvoid.Mesh

open Synvoid.Framework
open Synvoid.Http (eqIgnoreAsciiCase)

inductive HttpVersion where
  | http10
  | http11
  deriving DecidableEq

inductive HttpResponseBodyEncoding where
  | none
  | fixedLength
  | chunked
  | closeDelimited
  deriving DecidableEq

structure FramedHttpResponseHead where
  headerBytes : Bytes
  bodyPrefix : Bytes
  statusCode : Nat
  contentLength : Option Nat
  chunked : Bool
  connectionClose : Bool
  httpVersion : HttpVersion
  bodyEncoding : HttpResponseBodyEncoding
  deriving DecidableEq

inductive HttpResponseFramingError where
  | malformedStatusLine (msg : Str)
  | invalidStatusCode (msg : Str)
  | headerTooLarge
  | headerFramingTimeout
  | invalidContentLength (msg : Str)
  | unsupportedTransferEncoding (msg : Str)
  | bodyTooLarge (limit declared : Nat)
  | trailerTooLarge (limit observed : Nat)
  | prematureEof (expected received : Nat)
  | malformedChunkedBody (msg : Str)
  | backendClosedBeforeCompleteResponse
  | responseBodyPrefixExceedsContentLength (bodyPrefix declared : Nat)
  | malformedHeaderLine (line : Str)
  | unexpectedBodyBytesForNoBodyResponse (status observed : Nat)
  | io (msg : String)
  deriving DecidableEq

/-- `tokio::time::error::Elapsed`. -/
def elapsed : IoError := ⟨.other, "deadline has elapsed"⟩

/-! ### The head -/

def usizeMax : Nat := 18446744073709551615

def headerContainsToken (value token : Str) : Bool :=
  (value.splitOn ',').any fun part => eqIgnoreAsciiCase (trim part) token

def parseHttpVersion (version : Str) : Except HttpResponseFramingError HttpVersion :=
  if version = "HTTP/1.0".toList then .ok .http10
  else if version = "HTTP/1.1".toList then .ok .http11
  else .error (.malformedStatusLine ("unsupported HTTP version: ".toList ++ version))

def parseStatusCode (status : Str) : Except HttpResponseFramingError Nat :=
  if byteLen status ≠ 3 then
    .error (.invalidStatusCode ("status code must be 3 digits, got ".toList ++
      decimal (byteLen status) ++ " chars: ".toList ++ status))
  else if ¬ status.all Char.isDigit then
    .error (.invalidStatusCode ("non-digit in status code: ".toList ++ status))
  else
    match parseUnsigned 65535 status with
    | none => .error (.invalidStatusCode ("out of range: ".toList ++ status))
    | some code =>
        if 100 ≤ code ∧ code ≤ 599 then .ok code
        else .error (.invalidStatusCode
          ("status code ".toList ++ decimal code ++ " out of range 100..=599".toList))

def parseHttpResponseStatusLine (line : Str) :
    Except HttpResponseFramingError (HttpVersion × Nat) := do
  let parts := splitn ' ' 3 line
  match parts.head? with
  | none => .error (.malformedStatusLine "missing version token".toList)
  | some version => do
      let httpVersion ← parseHttpVersion (trimEnd version)
      match parts.tail.head? with
      | none => .error (.malformedStatusLine "missing status code".toList)
      | some status => do
          let statusCode ← parseStatusCode (trim status)
          .ok (httpVersion, statusCode)

/-- What the header lines say about the body. -/
structure HttpResponseFraming where
  contentLength : Option Nat
  chunked : Bool
  connectionClose : Bool
  deriving DecidableEq

section Head

-- `str::to_lowercase`
variable (toLowercase : Str → Str)

/-- A field, after the colon was found. -/
def parseField (name value : Str) (framing : HttpResponseFraming) :
    Except HttpResponseFramingError HttpResponseFraming :=
  if eqIgnoreAsciiCase name "content-length".toList then
    match parseUnsigned usizeMax value with
    | none => .error (.invalidContentLength ("non-numeric value: ".toList ++ value))
    | some v =>
        match framing.contentLength with
        | some existing =>
            if existing ≠ v then
              .error (.invalidContentLength ("conflicting values: ".toList ++ decimal existing ++
                " and ".toList ++ decimal v))
            else .ok { framing with contentLength := some v }
        | none => .ok { framing with contentLength := some v }
  else if eqIgnoreAsciiCase name "transfer-encoding".toList then
    if toLowercase value = "chunked".toList then .ok { framing with chunked := true }
    else .error (.unsupportedTransferEncoding (toLowercase value))
  else if eqIgnoreAsciiCase name "connection".toList &&
      headerContainsToken value "close".toList then
    .ok { framing with connectionClose := true }
  else .ok framing

/-- The loop over the lines behind the status line. -/
def parseHeaderLines (framing : HttpResponseFraming) :
    List Str → Except HttpResponseFramingError HttpResponseFraming
  | [] => .ok framing
  | line :: rest =>
      let trimmed := trim line
      if trimmed = [] then parseHeaderLines framing rest
      else
        match splitOnce ':' trimmed with
        | none => .error (.malformedHeaderLine line)
        | some pair => do
            let framing ← parseField toLowercase (trim pair.1) (trim pair.2) framing
            parseHeaderLines framing rest

def parseHttpResponseFraming (header : Str) :
    Except HttpResponseFramingError HttpResponseFraming := do
  let framing ← parseHeaderLines toLowercase ⟨none, false, false⟩ (lines header).tail
  if framing.chunked && framing.contentLength.isSome then
    .error (.invalidContentLength
      "both Content-Length and Transfer-Encoding: chunked present".toList)
  else .ok framing

def bodyEncodingOf (framing : HttpResponseFraming) (version : HttpVersion) :
    HttpResponseBodyEncoding :=
  if framing.chunked then .chunked
  else if framing.contentLength.isSome then .fixedLength
  else if framing.connectionClose || version == .http10 then .closeDelimited
  else .none

/-- An empty line, with the end of the line before it. -/
def headEnd : Bytes := [13, 10, 13, 10]

/-- A head and the number of its bytes; nothing if it is not complete yet. -/
def tryParseHttpResponseHead (buffer : Bytes) (maxHeaderBytes : Nat) :
    Except HttpResponseFramingError (Option (FramedHttpResponseHead × Nat)) :=
  match position headEnd buffer with
  | none => .ok none
  | some pos =>
      let headerEnd := pos + 4
      if headerEnd > maxHeaderBytes then .error .headerTooLarge
      else do
        let headerBytes := buffer.take headerEnd
        let header := fromUtf8Lossy headerBytes
        let (httpVersion, statusCode) ←
          parseHttpResponseStatusLine ((lines header).head?.getD [])
        let framing ← parseHttpResponseFraming toLowercase header
        .ok (some ({
          headerBytes
          bodyPrefix := if statusCode < 200 then [] else buffer.drop headerEnd
          statusCode
          contentLength := framing.contentLength
          chunked := framing.chunked
          connectionClose := framing.connectionClose
          httpVersion
          bodyEncoding := bodyEncodingOf framing httpVersion }, headerEnd))

/-! ### The sequence of responses -/

def headReadError (e : IoError) : HttpResponseFramingError :=
  if e = elapsed then .headerFramingTimeout else .io e.message

/-- A final head gets the bytes behind it. -/
def finalHead (head : FramedHttpResponseHead) (remainder : Bytes) :
    Except HttpResponseFramingError FramedHttpResponseHead :=
  let final := { head with bodyPrefix := remainder }
  if (final.statusCode = 204 ∨ final.statusCode = 304) ∧ final.bodyPrefix ≠ [] then
    .error (.unexpectedBodyBytesForNoBodyResponse final.statusCode final.bodyPrefix.length)
  else .ok final

/-- The loop of `read_http_response_sequence`. Every round takes a head off the
    buffer or moves some bytes into it. -/
def responseSequenceLoop (maxHeaderBytes : Nat) : Nat → Bytes → Source →
    Except HttpResponseFramingError FramedHttpResponseHead × Source
  | 0, _, source => (.error .headerFramingTimeout, source)
  | fuel + 1, buffer, source =>
      match tryParseHttpResponseHead toLowercase buffer maxHeaderBytes with
      | .error e => (.error e, source)
      | .ok (some (head, consumed)) =>
          if head.statusCode = 101 then
            (.error (.malformedStatusLine "101 Switching Protocols not supported".toList), source)
          else if head.statusCode ≥ 200 then (finalHead head (buffer.drop consumed), source)
          else responseSequenceLoop maxHeaderBytes fuel (buffer.drop consumed) source
      | .ok none =>
          if maxHeaderBytes ≤ buffer.length then (.error .headerTooLarge, source)
          else
            let readSize := min (maxHeaderBytes - buffer.length) 4096
            match source.read (readSize - 1) with
            | (.error e, source) => (.error (headReadError e), source)
            | (.ok got, source) =>
                if got = [] then (.error .backendClosedBeforeCompleteResponse, source)
                else responseSequenceLoop maxHeaderBytes fuel (buffer ++ got) source

def readHttpResponseSequence (source : Source) (maxHeaderBytes : Nat) :
    Except HttpResponseFramingError FramedHttpResponseHead × Source :=
  responseSequenceLoop toLowercase maxHeaderBytes (2 * source.size + 1) [] source

end Head

/-! ### Bodies of a known length -/

def bodyReadError (e : IoError) : HttpResponseFramingError :=
  if e = elapsed then .io "body read timeout" else .io e.message

/-- The loop of `read_fixed_http_response_body`. Every round reads some bytes. -/
def fixedBodyLoop (remaining : Nat) : Nat → Nat → Bytes → Source →
    Except HttpResponseFramingError Bytes × Source
  | 0, _, body, source => (.ok body, source)
  | fuel + 1, totalRead, body, source =>
      if totalRead ≥ remaining then (.ok body, source)
      else
        let toRead := min (remaining - totalRead) 8192
        match source.read (toRead - 1) with
        | (.error e, source) => (.error (bodyReadError e), source)
        | (.ok got, source) =>
            if got = [] then (.error (.prematureEof remaining totalRead), source)
            else fixedBodyLoop remaining fuel (totalRead + got.length) (body ++ got) source

def readFixedHttpResponseBody (source : Source) (bodyPrefix : Bytes)
    (contentLength maxBodyBytes : Nat) : Except HttpResponseFramingError Bytes × Source :=
  if bodyPrefix.length > contentLength then
    (.error (.responseBodyPrefixExceedsContentLength bodyPrefix.length contentLength), source)
  else if contentLength > maxBodyBytes then
    (.error (.bodyTooLarge maxBodyBytes contentLength), source)
  else
    let remaining := contentLength - bodyPrefix.length
    if remaining = 0 then (.ok bodyPrefix, source)
    else fixedBodyLoop remaining remaining 0 bodyPrefix source

end Synvoid.Mesh
