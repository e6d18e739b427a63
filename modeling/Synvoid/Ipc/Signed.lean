import Synvoid.Framework.BigEndian
import Synvoid.Framework.ByteReader
import Synvoid.Framework.ByteSource
import Synvoid.Framework.Table

/-! # Signed messages

    A signed frame is its length, a timestamp, a nonce, an HMAC over these and
    the payload, and the payload. `SignedWriter` collects what is written and
    emits one frame for each flush. `SignedReader` and `deserialize_signed`
    check the timestamp, then the HMAC, and then the nonce, in a cache that all
    of them share.

    The cache is swept with every 64th message and when it is full: an entry
    goes when its timestamp is not after the clock minus the window. The clock
    is read for each check anew, so that one message has three readings.
-/

namespace Synvoid.Ipc

open Synvoid.Framework

/-! ## Section 1: Signing -/

def hmacSize : Nat := 32

def timestampSize : Nat := 8

def nonceSize : Nat := 16

def signedMessageOverhead : Nat := 4 + timestampSize + nonceSize + hmacSize

def maxIpcMessageSize : Nat := 1024 * 1024

def retainInterval : UInt64 := 64

def maxNonceCacheSize : Nat := 10000

def replayWindowSecs : Nat := 60

/-- `[u8; n]`. -/
abbrev ByteArrayOf (n : Nat) := { b : Bytes // b.length = n }

abbrev Nonce := ByteArrayOf nonceSize

/-- HMAC-SHA3-256 of data under a key. -/
abbrev Hmac := ByteArrayOf 32 → Bytes → ByteArrayOf hmacSize

theorem length_zeros : (List.replicate 32 (0 : UInt8)).length = 32 := rfl

/-- Zeros, to run the model with. -/
def zeros : ByteArrayOf 32 := ⟨List.replicate 32 0, length_zeros⟩

def zeroHmac : Hmac := fun _ _ => zeros

structure IpcSigner where
  key : ByteArrayOf 32

namespace IpcSigner

/-- The first eight bytes of the key, the low one first. -/
def signerId (signer : IpcSigner) : Nat := leValue (signer.key.val.take 8)

def signParts (signer : IpcSigner) (hmac : Hmac) (parts : List Bytes) : ByteArrayOf hmacSize :=
  hmac signer.key parts.flatten

def verifyParts (signer : IpcSigner) (hmac : Hmac) (parts : List Bytes)
    (expected : ByteArrayOf hmacSize) : Bool :=
  signer.signParts hmac parts == expected

end IpcSigner

/-! ## Section 2: The nonce cache -/

/-- The readings of the clock while a message is checked: by
    `verify_timestamp`, for the periodic sweep, and for the sweep of a full
    cache. -/
structure ClockReads where
  verify : Nat
  retain : Nat
  capacity : Nat
  verify_le : verify ≤ retain
  retain_le : retain ≤ capacity

/-- A clock that stands still. -/
def ClockReads.still (now : Nat) : ClockReads := ⟨now, now, now, Nat.le_refl _, Nat.le_refl _⟩

/-- `now.abs_diff(timestamp) <= REPLAY_WINDOW_SECS`. -/
def verifyTimestamp (timestamp now : Nat) : Bool :=
  now - timestamp ≤ replayWindowSecs && timestamp - now ≤ replayWindowSecs

abbrev CacheKey := Nat × Nonce

structure NonceCache where
  entries : Table CacheKey Nat
  msgCount : UInt64

namespace NonceCache

def len (c : NonceCache) : Nat := c.entries.entries.length

/-- Drops the entries that are not after the clock minus the window. -/
def retainSince (c : NonceCache) (now : Nat) : NonceCache :=
  { c with entries := c.entries.traverse fun _ timestamp =>
      if timestamp > now - replayWindowSecs then some timestamp else none }

/-- Every 64th message sweeps the cache. -/
def periodicSweep (c : NonceCache) (clock : ClockReads) : NonceCache :=
  if c.msgCount % retainInterval = 0 then
    { c with msgCount := c.msgCount + 1 }.retainSince clock.retain
  else { c with msgCount := c.msgCount + 1 }

/-- Both sweeps. -/
def sweep (c : NonceCache) (clock : ClockReads) : NonceCache :=
  let c := c.periodicSweep clock
  if c.len ≥ maxNonceCacheSize then c.retainSince clock.capacity else c

/-- A cache that is still full loses the first entry. -/
def makeRoom (c : NonceCache) : Option NonceCache :=
  if c.len ≥ maxNonceCacheSize then
    match c.entries.entries with
    | [] => none
    | e :: _ => some { c with entries := c.entries.erase e.1 }
  else some c

def checkAndInsertNonce (c : NonceCache) (signerId : Nat) (nonce : Nonce) (timestamp : Nat)
    (clock : ClockReads) : Bool × NonceCache :=
  let c := c.sweep clock
  match c.makeRoom with
  | none => (false, c)
  | some c =>
      match c.entries.lookup (signerId, nonce) with
      | some _ => (false, c)
      | none => (true, { c with entries := c.entries.insert (signerId, nonce) timestamp })

end NonceCache

/-! ## Section 3: Checking a message -/

/-- The signed part of a message. -/
structure SignedParts where
  timestamp : UInt64
  nonce : Nonce
  hmac : ByteArrayOf hmacSize
  payload : Bytes

section checks

variable (hmac : Hmac) (signer : IpcSigner)

def SignedParts.authentic (m : SignedParts) : Bool :=
  signer.verifyParts hmac [beBytes 8 m.timestamp.toNat, m.nonce.val, m.payload] m.hmac

/-- The three checks of a message, with the errors of the last two. -/
def verifySigned (hmacFailed replayed : IoError) (m : SignedParts) (cache : NonceCache)
    (clock : ClockReads) : Except IoError Unit × NonceCache :=
  if !verifyTimestamp m.timestamp.toNat clock.verify then
    (.error ⟨.invalidData, "message timestamp outside replay window"⟩, cache)
  else if !m.authentic hmac signer then (.error hmacFailed, cache)
  else
    match cache.checkAndInsertNonce signer.signerId m.nonce m.timestamp.toNat clock with
    | (false, cache) => (.error replayed, cache)
    | (true, cache) => (.ok (), cache)

/-! ## Section 4: The stream reader and writer -/

structure SignedWriter where
  inner : Bytes
  buffer : Bytes

namespace SignedWriter

def new : SignedWriter := ⟨[], []⟩

def maxPayload : Nat := maxIpcMessageSize - signedMessageOverhead

def write (w : SignedWriter) (buf : Bytes) : Except IoError Nat × SignedWriter :=
  if buf.length > maxPayload - w.buffer.length then
    (.error ⟨.invalidInput, "signed message payload too large"⟩, w)
  else (.ok buf.length, { w with buffer := w.buffer ++ buf })

end SignedWriter

/-- A message with its HMAC. -/
def signMessage (timestamp : UInt64) (nonce : Nonce) (payload : Bytes) : SignedParts :=
  { timestamp, nonce, payload
    hmac := signer.signParts hmac [beBytes 8 timestamp.toNat, nonce.val, payload] }

/-- A frame behind its length. -/
def SignedParts.raw (m : SignedParts) : Bytes :=
  beBytes 8 m.timestamp.toNat ++ m.nonce.val ++ m.hmac.val ++ m.payload

def SignedParts.frame (m : SignedParts) : Bytes :=
  beBytes 4 ((timestampSize + nonceSize + hmacSize + m.payload.length) % 4294967296) ++ m.raw

/-- Emits what was written as one frame, with the time and a random nonce. -/
def SignedWriter.flush (w : SignedWriter) (timestamp : UInt64) (nonce : Nonce) : SignedWriter :=
  if w.buffer = [] then w
  else ⟨w.inner ++ (signMessage hmac signer timestamp nonce w.buffer).frame, []⟩

structure SignedReader where
  source : Source
  payloadBuffer : Bytes
  payloadPos : Nat

def SignedReader.new (source : Source) : SignedReader := ⟨source, [], 0⟩

/-- `raw[start..start + n]`, as an array. -/
def arrayAt (n start : Nat) (raw : Bytes) (h : start + n ≤ raw.length) : ByteArrayOf n :=
  ⟨(raw.drop start).take n, by rw [List.length_take, List.length_drop]; omega⟩

/-- The parts of a frame behind its length; `none` if it is too short. -/
def splitRaw (raw : Bytes) : Option SignedParts :=
  if h : 56 ≤ raw.length then
    some
      { timestamp := UInt64.ofNat (beValue (raw.take timestampSize))
        nonce := arrayAt nonceSize 8 raw (Nat.le_trans (by decide) h)
        hmac := arrayAt hmacSize 24 raw (Nat.le_trans (by decide) h)
        payload := raw.drop 56 }
  else none

/-- What comes behind the next length. -/
def readRaw (source : Source) : Except IoError Bytes × Source :=
  match source.readExact 4 with
  | (.error e, source) =>
      (.error (if e.kind = .unexpectedEof then ⟨.unexpectedEof, "EOF reading len"⟩ else e), source)
  | (.ok lenBuf, source) =>
      let totalLen := beValue lenBuf
      if timestampSize + nonceSize + hmacSize ≤ totalLen ∧ totalLen ≤ maxIpcMessageSize then
        source.readExact totalLen
      else (.error ⟨.invalidData, "signed message size invalid"⟩, source)

namespace SignedReader

def readMessage (r : SignedReader) (cache : NonceCache) (clock : ClockReads) :
    Except IoError Unit × SignedReader × NonceCache :=
  match readRaw r.source with
  | (.error e, source) => (.error e, { r with source }, cache)
  | (.ok raw, source) =>
      match splitRaw raw with
      | none => (.error ⟨.invalidData, "bad timestamp"⟩, { r with source }, cache)
      | some m =>
          match verifySigned hmac signer ⟨.invalidData, "HMAC verification failed"⟩
            ⟨.invalidData, "replay detected: duplicate nonce"⟩ m cache clock with
          | (.error e, cache) => (.error e, { r with source }, cache)
          | (.ok (), cache) => (.ok (), ⟨source, m.payload, 0⟩, cache)

/-- The bytes copied out of the payload. -/
def copyOut (r : SignedReader) (room : Nat) : Bytes × SignedReader :=
  let available := r.payloadBuffer.drop r.payloadPos
  let toCopy := min available.length room
  (available.take toCopy, { r with payloadPos := r.payloadPos + toCopy })

/-- `read` into a buffer with room for `room` bytes. -/
def read (r : SignedReader) (room : Nat) (cache : NonceCache) (clock : ClockReads) :
    Except IoError Bytes × SignedReader × NonceCache :=
  if r.payloadPos ≥ r.payloadBuffer.length then
    match r.readMessage hmac signer cache clock with
    | (.error e, r, cache) =>
        if e.kind = .unexpectedEof then (.ok [], r, cache) else (.error e, r, cache)
    | (.ok (), r, cache) => (.ok (r.copyOut room).1, (r.copyOut room).2, cache)
  else (.ok (r.copyOut room).1, (r.copyOut room).2, cache)

end SignedReader

/-! ## Section 5: Single messages -/

structure IpcEnvelope where
  timestamp : UInt64
  nonce : Nonce
  hmac : ByteArrayOf hmacSize
  data : Bytes

def IpcEnvelope.parts (e : IpcEnvelope) : SignedParts := ⟨e.timestamp, e.nonce, e.hmac, e.data⟩

/-- `serialization::deserialize` of an envelope and of a message. -/
structure EnvelopeDecoder (T : Type) where
  envelope : Bytes → Except IoError IpcEnvelope
  message : Bytes → Except IoError T

/-- The bytes behind the length of a frame that has the length it states. -/
def frameBody (data : Bytes) : Except IoError Bytes :=
  if data.length < 4 then .error ⟨.invalidData, "signed message too short"⟩
  else
    let frameLen := beValue (data.take 4)
    if frameLen > maxIpcMessageSize ∨ frameLen ≠ data.length - 4 then
      .error ⟨.invalidData, "signed message frame length mismatch"⟩
    else .ok (data.drop 4)

def deserializeSigned {T : Type} (decoder : EnvelopeDecoder T) (data : Bytes) (cache : NonceCache)
    (clock : ClockReads) : Except IoError T × NonceCache :=
  match frameBody data with
  | .error e => (.error e, cache)
  | .ok body =>
      match decoder.envelope body with
      | .error e => (.error e, cache)
      | .ok envelope =>
          match verifySigned hmac signer
            ⟨.permissionDenied, "IPC message HMAC verification failed"⟩
            ⟨.invalidData, "IPC message replay detected"⟩ envelope.parts cache clock with
          | (.error e, cache) => (.error e, cache)
          | (.ok (), cache) => (decoder.message envelope.data, cache)

/-! ## Section 6: What is written is read back -/

theorem length_raw (m : SignedParts) : m.raw.length = 56 + m.payload.length := by
  simp only [SignedParts.raw, List.length_append, length_beBytes, m.nonce.property,
    m.hmac.property]
  rfl

theorem length_frame (m : SignedParts) : m.frame.length = 4 + m.raw.length := by
  simp [SignedParts.frame]

theorem authentic_signMessage (timestamp : UInt64) (nonce : Nonce) (payload : Bytes) :
    (signMessage hmac signer timestamp nonce payload).authentic hmac signer = true := by
  simp [SignedParts.authentic, signMessage, IpcSigner.verifyParts]

theorem splitRaw_raw (m : SignedParts) : splitRaw m.raw = some m := by
  obtain ⟨timestamp, ⟨nonce, hnonce⟩, ⟨mac, hmac⟩, payload⟩ := m
  have hraw : SignedParts.raw ⟨timestamp, ⟨nonce, hnonce⟩, ⟨mac, hmac⟩, payload⟩ =
      beBytes 8 timestamp.toNat ++ (nonce ++ (mac ++ payload)) := by
    simp [SignedParts.raw]
  have hlength := length_raw ⟨timestamp, ⟨nonce, hnonce⟩, ⟨mac, hmac⟩, payload⟩
  generalize SignedParts.raw ⟨timestamp, ⟨nonce, hnonce⟩, ⟨mac, hmac⟩, payload⟩ = raw
    at hraw hlength
  -- the parts start where the lengths of those before them add up to
  have hdrop₈ : raw.drop 8 = nonce ++ (mac ++ payload) := by
    rw [hraw, List.drop_left' (length_beBytes 8 _)]
  have hdrop₂₄ : raw.drop (8 + nonceSize) = mac ++ payload := by
    rw [← List.drop_drop (i := nonceSize) (j := 8), hdrop₈, List.drop_left' hnonce]
  have hdrop₅₆ : raw.drop (8 + nonceSize + hmacSize) = payload := by
    rw [← List.drop_drop (i := hmacSize) (j := 8 + nonceSize), hdrop₂₄, List.drop_left' hmac]
  have htime : raw.take timestampSize = beBytes 8 timestamp.toNat := by
    rw [hraw, timestampSize, List.take_left' (length_beBytes 8 _)]
  have hvalue : beValue (beBytes 8 timestamp.toNat) = timestamp.toNat :=
    beValue_beBytes (Nat.lt_of_lt_of_eq timestamp.toNat_lt (by decide))
  rw [splitRaw, dif_pos (by omega)]
  simp only [nonceSize, hmacSize] at hdrop₂₄ hdrop₅₆
  simp only [arrayAt, hdrop₈, hdrop₂₄, hdrop₅₆, htime, List.take_left' hnonce, List.take_left' hmac,
    hvalue, UInt64.ofNat_toNat]

/-- The length of a payload that a writer takes fits the prefix. -/
theorem frame_eq {m : SignedParts} (hsize : m.payload.length ≤ SignedWriter.maxPayload) :
    m.frame = beBytes 4 m.raw.length ++ m.raw ∧ beValue (beBytes 4 m.raw.length) = m.raw.length ∧
      timestampSize + nonceSize + hmacSize ≤ m.raw.length ∧ m.raw.length ≤ maxIpcMessageSize := by
  have hlen : m.raw.length ≤ maxIpcMessageSize := by
    have hmax : SignedWriter.maxPayload + 60 = maxIpcMessageSize := rfl
    rw [length_raw]
    omega
  have hlt : m.raw.length < 4294967296 := Nat.lt_of_le_of_lt hlen (by decide)
  refine ⟨?_, beValue_beBytes hlt, ?_, hlen⟩
  · have hsum : timestampSize + nonceSize + hmacSize + m.payload.length = m.raw.length :=
      (length_raw m).symm
    rw [SignedParts.frame, hsum, Nat.mod_eq_of_lt hlt]
  · rw [length_raw]
    exact Nat.le_add_right 56 _

/-- The next frame of a stream without errors, and what is left of it. -/
theorem readRaw_frame {m : SignedParts} (hsize : m.payload.length ≤ SignedWriter.maxPayload)
    {source : Source} (hclean : source.Clean) {rest : Bytes}
    (hbytes : source.bytes = m.frame ++ rest) :
    ∃ source', readRaw source = (.ok m.raw, source') ∧ source'.bytes = rest ∧ source'.Clean := by
  obtain ⟨hframe, hvalue, hvalid⟩ := frame_eq hsize
  rw [hframe, List.append_assoc] at hbytes
  obtain ⟨source₁, hread₁, hbytes₁, hclean₁⟩ := Source.readExact_of_append hclean hbytes
  obtain ⟨source₂, hread₂, hbytes₂, hclean₂⟩ := Source.readExact_of_append hclean₁ hbytes₁
  rw [length_beBytes] at hread₁
  refine ⟨source₂, ?_, hbytes₂, hclean₂⟩
  rw [readRaw, hread₁]
  simp only [hvalue]
  rw [if_pos hvalid, hread₂]

end checks

end Synvoid.Ipc
