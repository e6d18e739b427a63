import Synvoid.Ipc.Signed

/-! # Truncated streams

    `SignedReader::read` turns every `UnexpectedEof` of `read_message` into the
    end of the stream. That is the error at the end of the stream, where the
    length of another frame would be, and it is also the error inside a length
    and inside a frame. The stream decoder of `SignedIpcMessage` turns an error
    inside a frame into one of another kind.

    So a stream that was cut inside a frame is read to a clean end, wherever it
    was cut and whatever was written (`truncation_undetected`). The induction is
    over the reads: the reader holds the rest of one payload, and its source
    holds the frames still to come and the part of the frame that was cut.
-/

namespace Synvoid.Ipc

open Synvoid.Framework

section truncation

variable (hmac : Hmac) (signer : IpcSigner)

/-! ## Section 1: What a writer emits -/

inductive WriterOp where
  | write (buf : Bytes)
  | flush (timestamp : UInt64) (nonce : Nonce)

def WriterOp.apply (w : SignedWriter) : WriterOp → SignedWriter
  | .write buf => (w.write buf).2
  | .flush timestamp nonce => w.flush hmac signer timestamp nonce

/-- The message that an operation emits. -/
def WriterOp.message (w : SignedWriter) : WriterOp → List SignedParts
  | .write _ => []
  | .flush timestamp nonce =>
      if w.buffer = [] then [] else [signMessage hmac signer timestamp nonce w.buffer]

/-- The messages that operations emit, in their order. -/
def messagesFrom : SignedWriter → List WriterOp → List SignedParts
  | _, [] => []
  | w, op :: ops => op.message hmac signer w ++ messagesFrom (op.apply hmac signer w) ops

/-- The bytes that a new writer emits. -/
def emitted (ops : List WriterOp) : Bytes :=
  (ops.foldl (WriterOp.apply hmac signer) .new).inner

/-- The bytes of frames back to back. -/
def framesOf (ms : List SignedParts) : Bytes := (ms.map SignedParts.frame).flatten

def payloadsOf (ms : List SignedParts) : Bytes := (ms.map SignedParts.payload).flatten

/-- A message as a writer emits it. -/
structure Writable (m : SignedParts) : Prop where
  payload_ne : m.payload ≠ []
  payload_le : m.payload.length ≤ SignedWriter.maxPayload

variable {hmac signer}

theorem inner_apply (w : SignedWriter) (op : WriterOp) :
    (op.apply hmac signer w).inner = w.inner ++ framesOf (op.message hmac signer w) := by
  cases op with
  | write buf =>
    simp only [WriterOp.apply, WriterOp.message, SignedWriter.write]
    split <;> simp [framesOf]
  | flush timestamp nonce =>
    simp only [WriterOp.apply, WriterOp.message, SignedWriter.flush]
    split <;> simp [framesOf]

theorem inner_foldl (w : SignedWriter) (ops : List WriterOp) :
    (ops.foldl (WriterOp.apply hmac signer) w).inner =
      w.inner ++ framesOf (messagesFrom hmac signer w ops) := by
  induction ops generalizing w with
  | nil => simp [messagesFrom, framesOf]
  | cons op ops ih =>
    rw [List.foldl_cons, ih, inner_apply, List.append_assoc]
    simp [messagesFrom, framesOf]

/-- A writer emits the frames of its messages. -/
theorem emitted_eq (ops : List WriterOp) :
    emitted hmac signer ops = framesOf (messagesFrom hmac signer .new ops) := by
  rw [emitted, inner_foldl]
  rfl

/-- What is in the buffer fits a frame. -/
theorem buffer_apply_le {w : SignedWriter} (h : w.buffer.length ≤ SignedWriter.maxPayload)
    (op : WriterOp) : (op.apply hmac signer w).buffer.length ≤ SignedWriter.maxPayload := by
  cases op with
  | write buf =>
    simp only [WriterOp.apply, SignedWriter.write]
    split
    · exact h
    · rw [List.length_append]
      omega
  | flush timestamp nonce =>
    simp only [WriterOp.apply, SignedWriter.flush]
    split
    · exact h
    · exact Nat.zero_le _

theorem writable_of_mem_messagesFrom {w : SignedWriter}
    (h : w.buffer.length ≤ SignedWriter.maxPayload) {ops : List WriterOp} {m : SignedParts}
    (hm : m ∈ messagesFrom hmac signer w ops) : Writable m := by
  induction ops generalizing w with
  | nil => cases hm
  | cons op ops ih =>
    rcases List.mem_append.mp hm with hnew | hlater
    · cases op with
      | write buf => cases hnew
      | flush timestamp nonce =>
        simp only [WriterOp.message] at hnew
        split at hnew
        · cases hnew
        · next hbuffer =>
          obtain rfl := List.mem_singleton.mp hnew
          exact ⟨hbuffer, h⟩
    · exact ih (buffer_apply_le h op) hlater

variable (hmac signer)

/-! ## Section 2: Reading -/

/-- A call of `read`: the room in its buffer, the cache as the call finds it,
    and the clock. -/
structure ReadCall where
  room : Nat
  cache : NonceCache
  clock : ClockReads

/-- The results of successive calls. -/
def readResults : SignedReader → List ReadCall → List (Except IoError Bytes)
  | _, [] => []
  | r, call :: calls =>
      let result := r.read hmac signer call.room call.cache call.clock
      result.1 :: readResults result.2.1 calls

/-- The results are `payload`, in pieces, and then an error. -/
def ReportsError (results : List (Except IoError Bytes)) (payload : Bytes) : Prop :=
  ∃ (chunks : List Bytes) (e : IoError) (later : List (Except IoError Bytes)),
    results = chunks.map .ok ++ .error e :: later ∧
    (∀ chunk ∈ chunks, chunk ≠ []) ∧ chunks.flatten = payload

/-- A part of the stream of `ms` that ends inside a frame, behind the complete
    frames of `complete`. -/
def CutInside (ms complete : List SignedParts) (part : Bytes) : Prop :=
  ∃ m later, ms = complete ++ m :: later ∧ part <+: m.frame ∧ part ≠ [] ∧ part ≠ m.frame

/-- The payload that the reader has not delivered yet. -/
def SignedReader.undelivered (r : SignedReader) : Bytes := r.payloadBuffer.drop r.payloadPos

variable {hmac signer}

theorem reportsError_cons {chunk : Bytes} {results : List (Except IoError Bytes)} {payload : Bytes}
    (h : ReportsError (.ok chunk :: results) payload) :
    chunk ≠ [] ∧ ∃ rest, payload = chunk ++ rest ∧ ReportsError results rest := by
  obtain ⟨chunks, e, later, hresults, hne, rfl⟩ := h
  cases chunks with
  | nil => simp at hresults
  | cons c chunks =>
    simp only [List.map_cons, List.cons_append, List.cons.injEq, Except.ok.injEq] at hresults
    obtain ⟨rfl, hresults⟩ := hresults
    rw [List.forall_mem_cons] at hne
    exact ⟨hne.1, chunks.flatten, rfl, chunks, e, later, hresults, hne.2, rfl⟩

theorem reportsError_error {e : IoError} {results : List (Except IoError Bytes)} {payload : Bytes}
    (h : ReportsError (.error e :: results) payload) : payload = [] := by
  obtain ⟨chunks, e', later, hresults, -, rfl⟩ := h
  cases chunks with
  | nil => rfl
  | cons c chunks => simp at hresults

theorem copyOut_spec (r : SignedReader) (room : Nat) :
    r.undelivered = (r.copyOut room).1 ++ (r.copyOut room).2.undelivered ∧
      (r.copyOut room).2.source = r.source := by
  refine ⟨?_, rfl⟩
  simp only [SignedReader.copyOut, SignedReader.undelivered]
  rw [← List.drop_drop, List.take_append_drop]

/-- A frame that is cut ends the stream in the same way as no frame does. -/
theorem readRaw_cut {m : SignedParts} (hm : Writable m) {source : Source} (hclean : source.Clean)
    {part : Bytes} (hbytes : source.bytes = part) (hfront : part <+: m.frame)
    (hne : part ≠ m.frame) : ∃ e source', readRaw source = (.error e, source') ∧
      e.kind = .unexpectedEof := by
  obtain ⟨hframe, hvalue, hvalid⟩ := frame_eq hm.payload_le
  have hshort : part.length < m.frame.length := by
    refine Nat.lt_of_le_of_ne hfront.length_le ?_
    exact fun heq => hne (hfront.eq_of_length heq)
  rw [length_frame] at hshort
  unfold readRaw
  by_cases hlen : part.length < 4
  -- inside the length
  · have hread := Source.readExact_of_lt hclean (by rwa [hbytes] : source.bytes.length < 4)
    generalize source.readExact 4 = result at hread ⊢
    obtain ⟨result, source'⟩ := result
    obtain rfl : result = _ := hread
    exact ⟨_, source', rfl, rfl⟩
  -- behind it
  · obtain ⟨body, rfl⟩ : ∃ body, part = beBytes 4 m.raw.length ++ body := by
      rw [hframe] at hfront
      have hfront : beBytes 4 m.raw.length <+: part := by
        refine List.prefix_of_prefix_length_le (List.prefix_append ..) hfront ?_
        rw [length_beBytes]
        omega
      obtain ⟨body, hbody⟩ := hfront
      exact ⟨body, hbody.symm⟩
    obtain ⟨source₁, hread₁, hbytes₁, hclean₁⟩ := Source.readExact_of_append hclean hbytes
    rw [length_beBytes] at hread₁
    rw [List.length_append, length_beBytes] at hshort
    have hread₂ := Source.readExact_of_lt hclean₁
      (by rw [hbytes₁]; omega : source₁.bytes.length < m.raw.length)
    rw [hread₁]
    simp only [hvalue]
    rw [if_pos hvalid]
    generalize source₁.readExact m.raw.length = result at hread₂ ⊢
    obtain ⟨result, source'⟩ := result
    obtain rfl : result = _ := hread₂
    exact ⟨_, source', rfl, rfl⟩

/-- A complete frame that is not accepted is reported, and not as the end. -/
theorem verifySigned_error_kind {m : SignedParts} {cache cache' : NonceCache} {clock : ClockReads}
    {e : IoError} (h : verifySigned hmac signer ⟨.invalidData, "HMAC verification failed"⟩
      ⟨.invalidData, "replay detected: duplicate nonce"⟩ m cache clock = (.error e, cache')) :
    e.kind = .invalidData := by
  unfold verifySigned at h
  split at h
  · obtain rfl := Except.error.inj (congrArg Prod.fst h)
    rfl
  · split at h
    · obtain rfl := Except.error.inj (congrArg Prod.fst h)
      rfl
    · split at h
      · obtain rfl := Except.error.inj (congrArg Prod.fst h)
        rfl
      · cases congrArg Prod.fst h

section reads
variable {r : SignedReader} (call : ReadCall)

theorem read_delivered (h : r.undelivered = []) :
    r.read hmac signer call.room call.cache call.clock =
      match r.readMessage hmac signer call.cache call.clock with
      | (.error e, r, cache) =>
          if e.kind = .unexpectedEof then (.ok [], r, cache) else (.error e, r, cache)
      | (.ok (), r, cache) => (.ok (r.copyOut call.room).1, (r.copyOut call.room).2, cache) := by
  exact if_pos (List.drop_eq_nil_iff.mp h)

theorem read_undelivered (h : r.undelivered ≠ []) :
    r.read hmac signer call.room call.cache call.clock =
      (.ok (r.copyOut call.room).1, (r.copyOut call.room).2, call.cache) := by
  rw [SignedReader.read, if_neg fun hpos => h (List.drop_eq_nil_iff.mpr hpos)]

/-- At a cut, `read` returns 0. -/
theorem read_cut (h : r.undelivered = []) {m : SignedParts} (hm : Writable m)
    (hclean : r.source.Clean) (hfront : r.source.bytes <+: m.frame)
    (hne : r.source.bytes ≠ m.frame) :
    (r.read hmac signer call.room call.cache call.clock).1 = .ok [] := by
  obtain ⟨e, source', hread, hkind⟩ := readRaw_cut hm hclean rfl hfront hne
  rw [read_delivered call h, SignedReader.readMessage, hread]
  simp only [hkind, if_true]

/-- Before a frame, `read` reports an error, or it delivers from the payload. -/
theorem read_frame_cases (h : r.undelivered = []) {m : SignedParts} (hm : Writable m)
    (hclean : r.source.Clean) {rest : Bytes} (hbytes : r.source.bytes = m.frame ++ rest) :
    (∃ e, (r.read hmac signer call.room call.cache call.clock).1 = .error e) ∨
    ∃ chunk r' cache, r.read hmac signer call.room call.cache call.clock = (.ok chunk, r', cache) ∧
      m.payload = chunk ++ r'.undelivered ∧ r'.source.Clean ∧ r'.source.bytes = rest := by
  obtain ⟨source', hread, hrest, hclean'⟩ := readRaw_frame hm.payload_le hclean hbytes
  rw [read_delivered call h, SignedReader.readMessage, hread]
  simp only [splitRaw_raw]
  generalize hverify : verifySigned hmac signer _ _ m call.cache call.clock = result
  obtain ⟨result, cache⟩ := result
  cases result with
  | error e =>
    have hkind := verifySigned_error_kind hverify
    refine Or.inl ⟨e, ?_⟩
    simp [hkind]
  | ok _ =>
    obtain ⟨hpayload, hsource⟩ := copyOut_spec ⟨source', m.payload, 0⟩ call.room
    refine Or.inr ⟨_, _, _, rfl, hpayload, ?_, ?_⟩
    · rw [hsource]
      exact hclean'
    · rw [hsource]
      exact hrest

end reads

/-! ## Section 3: No cut is reported -/

/-- The reads from any point of a stream that was cut. -/
theorem not_reportsError {pending : List SignedParts} {m : SignedParts} {part : Bytes}
    (hpending : ∀ m ∈ pending, Writable m) (hm : Writable m) (hfront : part <+: m.frame)
    (hne : part ≠ m.frame) (calls : List ReadCall) {r : SignedReader} (hclean : r.source.Clean)
    (hbytes : r.source.bytes = framesOf pending ++ part) :
    ¬ ReportsError (readResults hmac signer r calls) (r.undelivered ++ payloadsOf pending) := by
  induction calls generalizing r pending with
  | nil =>
    rintro ⟨chunks, e, later, hresults, -⟩
    simp [readResults] at hresults
  | cons call calls ih =>
    intro hreports
    rw [readResults] at hreports
    by_cases hdone : r.undelivered = []
    · rw [hdone, List.nil_append] at hreports
      cases pending with
      | nil =>
        have hbytes' : r.source.bytes = part := hbytes
        rw [← hbytes'] at hfront hne
        rw [read_cut call hdone hm hclean hfront hne] at hreports
        exact (reportsError_cons hreports).1 rfl
      | cons next pending =>
        rw [List.forall_mem_cons] at hpending
        have hbytes' : r.source.bytes = next.frame ++ (framesOf pending ++ part) := by
          rw [hbytes]
          simp [framesOf]
        rcases read_frame_cases call hdone hpending.1 hclean hbytes' with
          ⟨e, herror⟩ | ⟨chunk, r', cache, hread, hpayload, hclean', hrest⟩
        · rw [herror] at hreports
          have hnil := reportsError_error hreports
          exact hpending.1.payload_ne (List.append_eq_nil_iff.mp hnil).1
        · rw [hread] at hreports
          obtain ⟨-, rest, hsplit, hreports⟩ := reportsError_cons hreports
          have hrest' : rest = r'.undelivered ++ payloadsOf pending := by
            refine List.append_cancel_left (?_ : chunk ++ _ = chunk ++ _)
            rw [← hsplit, ← List.append_assoc, ← hpayload]
            rfl
          rw [hrest'] at hreports
          exact ih hpending.2 hclean' hrest hreports
    · rw [read_undelivered call hdone] at hreports
      obtain ⟨hcopied, hsource⟩ := copyOut_spec r call.room
      obtain ⟨-, rest, hsplit, hreports⟩ := reportsError_cons hreports
      have hrest : rest = (r.copyOut call.room).2.undelivered ++ payloadsOf pending := by
        refine List.append_cancel_left (?_ : (r.copyOut call.room).1 ++ _ = _ ++ _)
        rw [← hsplit, ← List.append_assoc, ← hcopied]
      rw [hrest] at hreports
      exact ih hpending (by rwa [hsource]) (by rwa [hsource]) hreports

/-- **Truncation is never reported.** Whatever was written, and wherever inside
    a frame its stream was cut, no reads deliver the payloads of the complete
    frames and then fail. -/
theorem truncation_undetected (hmac : Hmac) (signer : IpcSigner) (ops : List WriterOp)
    {complete : List SignedParts} {part : Bytes}
    (hcut : CutInside (messagesFrom hmac signer .new ops) complete part)
    {source : Source} (hclean : source.Clean) (hbytes : source.bytes = framesOf complete ++ part)
    (calls : List ReadCall) :
    source.bytes <+: emitted hmac signer ops ∧ source.bytes ≠ emitted hmac signer ops ∧
      ¬ ReportsError (readResults hmac signer (.new source) calls) (payloadsOf complete) := by
  obtain ⟨m, later, hms, hfront, -, hne⟩ := hcut
  have hwritable : ∀ m' ∈ complete ++ m :: later, Writable m' := by
    rw [← hms]
    exact fun m' hm' => writable_of_mem_messagesFrom (Nat.zero_le _) hm'
  rw [List.forall_mem_append, List.forall_mem_cons] at hwritable
  have hstream : emitted hmac signer ops = framesOf complete ++ (m.frame ++ framesOf later) := by
    rw [emitted_eq, hms]
    simp [framesOf]
  refine ⟨?_, ?_, ?_⟩
  · rw [hbytes, hstream, List.prefix_append_right_inj]
    exact hfront.trans (List.prefix_append ..)
  · rw [hbytes, hstream]
    intro heq
    have hwhole := List.append_cancel_left heq
    refine hne (hfront.eq_of_length_le ?_)
    rw [hwhole, List.length_append]
    exact Nat.le_add_right _ _
  · exact not_reportsError hwritable.1 hwritable.2.1 hfront hne calls
      (r := .new source) hclean hbytes

end truncation

/-! ## Section 4: A stream that was cut -/

/-- Two messages of one byte each. -/
def twoMessages : List WriterOp :=
  [.write [7], .flush 100 ⟨List.replicate 16 0, rfl⟩, .write [8],
    .flush 100 ⟨List.replicate 16 1, rfl⟩]

def zeroSigner : IpcSigner := ⟨zeros⟩

def firstMessage : SignedParts :=
  signMessage zeroHmac zeroSigner 100 ⟨List.replicate 16 0, rfl⟩ [7]

theorem cutInside_twoMessages :
    CutInside (messagesFrom zeroHmac zeroSigner .new twoMessages) [firstMessage] [0, 0] := by
  refine ⟨_, [], rfl, ?_, ?_, ?_⟩
  · exact ⟨_, rfl⟩
  · decide
  · decide

/-- **A cut reads as the end of the stream.** The first message is delivered,
    and then `read` returns 0 and not an error. -/
theorem cut_read_as_end :
    CutInside (messagesFrom zeroHmac zeroSigner .new twoMessages) [firstMessage] [0, 0] ∧
      payloadsOf [firstMessage] = [7] ∧
      ∀ cache, readResults zeroHmac zeroSigner
        (.new (Source.ofBytes (framesOf [firstMessage] ++ [0, 0])))
        [⟨16, ⟨∅, 0⟩, .still 100⟩, ⟨16, cache, .still 100⟩] = [.ok [7], .ok []] := by
  exact ⟨cutInside_twoMessages, rfl, fun _ => rfl⟩

theorem cut_undetected_at_two_messages :
    ¬ ReportsError (readResults zeroHmac zeroSigner
        (.new (Source.ofBytes (framesOf [firstMessage] ++ [0, 0]))) [⟨16, ⟨∅, 0⟩, .still 100⟩])
      (payloadsOf [firstMessage]) :=
  (truncation_undetected zeroHmac zeroSigner twoMessages cutInside_twoMessages
    (Source.clean_ofBytes _) (Source.bytes_ofBytes _) _).2.2

end Synvoid.Ipc
