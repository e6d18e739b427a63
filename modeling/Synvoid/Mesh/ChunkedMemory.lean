import Mathlib.Logic.Function.Iterate
import Synvoid.Mesh.ChunkedResponse

/-! # Memory of the chunked reader

    `read_chunked_http_response_body` (`synvoid-mesh/src/mesh/transport_peer.rs`) as
    a machine that takes one byte, one chunk or one growth of a buffer at a time, so
    that what it has allocated can be seen at every moment. A vector grows as the
    standard library lets it: to twice its capacity at least, and never above
    `isize::MAX` bytes.

    The line buffer and the output stay in the limits, whatever is received. The
    buffer for a chunk does not: it is allocated for the size that the peer
    announces, and the limit is looked at when the chunk has been read. The sum of
    that size and 2 is not checked either.

    `run_result` connects the machine with `readChunkedHttpResponseBody`.
-/

namespace Synvoid.Mesh

open Synvoid.Framework
open Synvoid.Http

/-- Capacity of a `Vec<u8>` once it has room for `needed` bytes; `none` is the
    panic of the standard library. -/
def grow (cap needed : Nat) : Option Nat :=
  if needed ≤ cap then some cap
  else if max (max (2 * cap) needed) 8 ≤ isizeMax then some (max (max (2 * cap) needed) 8)
  else none

/-! ### The machine -/

inductive ReadPhase where
  /-- In the loop over a size line. -/
  | line (line : Bytes)
  /-- A buffer for a chunk of the announced size has been asked for. -/
  | chunk (size : Nat)
  /-- The chunk is in the output, and its buffer still there. -/
  | stored (size : Nat)
  | trailer (trailerBytes : Nat)
  | done (result : Except ReadFailure Bytes)
  deriving DecidableEq

structure ReadState where
  phase : ReadPhase
  totalWireBytes : Nat
  output : Bytes
  outputCap : Nat
  lineCap : Nat
  reader : PrefixReader

namespace ReadState

def start (source : Source) (prefixBytes : Bytes) : ReadState :=
  { phase := .line []
    totalWireBytes := 0
    output := []
    outputCap := 0
    lineCap := 64
    reader := .new prefixBytes source }

def fail (s : ReadState) (e : ReadFailure) : ReadState := { s with phase := .done (.error e) }

section step
variable (limits : ChunkLimits) (s : ReadState)

def bodyTooLarge (total : Nat) : ReadState :=
  s.fail (.error (.bodyTooLarge limits.maxBodyBytes total))

/-- `output.extend_from_slice(bytes)`, after the limit has been checked. -/
def extend (bytes : Bytes) (next : ReadPhase) : ReadState :=
  match grow s.outputCap (s.output.length + bytes.length) with
  | none => s.fail .capacityOverflow
  | some cap =>
      { s with
        phase := next
        totalWireBytes := s.totalWireBytes + bytes.length
        output := s.output ++ bytes
        outputCap := cap }

/-- One more byte of a size line. -/
def pushLine (line : Bytes) : ReadState :=
  if line.length ≥ limits.maxTrailerBytes then
    s.fail (.error (.trailerTooLarge limits.maxTrailerBytes line.length))
  else
    match s.reader.readByte with
    | (.error e, reader) => { s with reader }.fail e
    | (.ok byte, reader) =>
        match grow s.lineCap (line.length + 1) with
        | none => { s with reader }.fail .capacityOverflow
        | some cap => { s with phase := .line (line ++ [byte]), lineCap := cap, reader }

/-- The end of a size line. -/
def endLine (line : Bytes) : ReadState :=
  if s.totalWireBytes + line.length > limits.maxBodyBytes then
    s.bodyTooLarge limits (s.totalWireBytes + line.length)
  else
    s.extend line
      (match chunkSize line with
      | none =>
          .done (.error (.error (.malformedChunkedBody
            ("invalid chunk size: ".toList ++ sizeText line))))
      | some size => if size = 0 then .trailer 0 else .chunk size)

def readChunk (size : Nat) : ReadState :=
  if payloadAndCrlf size > isizeMax then s.fail .capacityOverflow
  else
    match s.reader.readExact (payloadAndCrlf size) with
    | (.error e, reader) => { s with reader }.fail e
    | (.ok chunk, reader) =>
        if s.totalWireBytes + chunk.length > limits.maxBodyBytes then
          { s with reader }.bodyTooLarge limits (s.totalWireBytes + chunk.length)
        else { s with reader }.extend chunk (.stored size)

def pushTrailer (trailerBytes : Nat) : ReadState :=
  match s.reader.readByte with
  | (.error e, reader) => { s with reader }.fail e
  | (.ok byte, reader) =>
      if trailerBytes + 1 > limits.maxTrailerBytes then
        { s with reader }.fail
          (.error (.trailerTooLarge limits.maxTrailerBytes (trailerBytes + 1)))
      else if s.totalWireBytes + 1 > limits.maxBodyBytes then
        { s with reader }.bodyTooLarge limits (s.totalWireBytes + 1)
      else
        { s with reader }.extend [byte]
          (if headEnd <:+ s.output ++ [byte] then .done (.ok (s.output ++ [byte]))
          else .trailer (trailerBytes + 1))

def step : ReadState :=
  match s.phase with
  | .line line => if crlf <:+ line then s.endLine limits line else s.pushLine limits line
  | .chunk size => s.readChunk limits size
  | .stored _ => { s with phase := .line [] }
  | .trailer trailerBytes => s.pushTrailer limits trailerBytes
  | .done _ => s

end step

/-! ### What is looked at in a state -/

/-- Capacities of the line buffer, of the output and of the buffer for a chunk. -/
def allocated (s : ReadState) : Nat :=
  s.lineCap + s.outputCap +
    match s.phase with
    | .chunk size | .stored size => payloadAndCrlf size
    | _ => 0

/-- Bytes taken from the wire. -/
def wireBytes (s : ReadState) : Nat :=
  s.totalWireBytes +
    match s.phase with
    | .line line => line.length
    | _ => 0

/-- The sums that the next step computes are numbers of the machine. -/
def NoOverflow (s : ReadState) : Prop :=
  match s.phase with
  | .line line => s.totalWireBytes + line.length ≤ usizeMax
  | .chunk size =>
      size + 2 ≤ usizeMax ∧
        (payloadAndCrlf size ≤ isizeMax → s.totalWireBytes + payloadAndCrlf size ≤ usizeMax)
  | .stored _ => True
  | .trailer trailerBytes => trailerBytes + 1 ≤ usizeMax ∧ s.totalWireBytes + 1 ≤ usizeMax
  | .done _ => True

end ReadState

/-! ### Buffers in every state -/

theorem le_of_grow {cap needed cap' : Nat} (h : grow cap needed = some cap') :
    needed ≤ cap' ∧ (cap ≤ isizeMax → cap' ≤ isizeMax) ∧
      ∀ limit bound, needed ≤ limit → 2 * limit + 8 ≤ bound → cap ≤ bound → cap' ≤ bound := by
  unfold grow at h
  split at h
  · obtain rfl := Option.some.inj h
    exact ⟨by assumption, id, fun _ _ _ _ => id⟩
  · split at h
    · obtain rfl := Option.some.inj h
      exact ⟨by omega, by omega, by omega⟩
    · cases h

namespace ReadState

/-- What holds between the buffers and the limits, whatever has been received. -/
structure Bounded (limits : ChunkLimits) (s : ReadState) : Prop where
  total : s.totalWireBytes ≤ limits.maxBodyBytes
  output : s.output.length = s.totalWireBytes
  room : s.output.length ≤ s.outputCap
  outputCap : s.outputCap ≤ 2 * limits.maxBodyBytes + 8
  outputMax : s.outputCap ≤ isizeMax
  lineCap : s.lineCap ≤ 2 * limits.maxTrailerBytes + 64
  lineMax : s.lineCap ≤ isizeMax
  line : ∀ line, s.phase = .line line → line.length ≤ s.lineCap
  trailer : ∀ n, s.phase = .trailer n → n ≤ s.totalWireBytes

variable {limits : ChunkLimits} {s : ReadState}

theorem bounded_start (source : Source) (prefixBytes : Bytes) :
    (start source prefixBytes).Bounded limits where
  total := Nat.zero_le _
  output := rfl
  room := Nat.le_refl _
  outputCap := Nat.zero_le _
  outputMax := Nat.zero_le _
  lineCap := Nat.le_add_left _ _
  lineMax := show 64 ≤ isizeMax by decide
  line := by
    rintro line h
    cases h
    exact Nat.zero_le _
  trailer := by
    rintro n h
    cases h

/-- Another phase, without a line or a trailer, and another reader. -/
theorem Bounded.other (h : s.Bounded limits) {phase : ReadPhase} (hline : ∀ l, phase ≠ .line l)
    (htrailer : ∀ n, phase ≠ .trailer n) (reader : PrefixReader) :
    Bounded limits { s with phase, reader } :=
  { h with
    line := fun l hl => absurd hl (hline l)
    trailer := fun n hn => absurd hn (htrailer n) }

theorem Bounded.fail (h : s.Bounded limits) (e : ReadFailure) (reader : PrefixReader) :
    Bounded limits ({ s with reader }.fail e) :=
  h.other (by simp) (by simp) reader

theorem Bounded.extend (h : s.Bounded limits) {bytes : Bytes} {next : ReadPhase}
    (hlimit : s.totalWireBytes + bytes.length ≤ limits.maxBodyBytes)
    (hline : ∀ l, next ≠ .line l)
    (htrailer : ∀ n, next = .trailer n → n ≤ s.totalWireBytes + bytes.length)
    (reader : PrefixReader) : Bounded limits ({ s with reader }.extend bytes next) := by
  have hlength : s.output.length + bytes.length = s.totalWireBytes + bytes.length := by
    rw [h.output]
  unfold ReadState.extend
  simp only
  cases hgrow : grow s.outputCap (s.output.length + bytes.length) with
  | none => exact h.fail .capacityOverflow reader
  | some cap =>
    obtain ⟨hroom, hmax, hcap⟩ := le_of_grow hgrow
    exact
      { h with
        total := hlimit
        output := by simpa using hlength
        room := by simpa using hroom
        outputCap := hcap _ _ (hlength ▸ hlimit) (Nat.le_refl _) h.outputCap
        outputMax := hmax h.outputMax
        line := fun l hl => absurd hl (hline l)
        trailer := htrailer }

theorem Bounded.pushLine (h : s.Bounded limits) (line : Bytes) :
    Bounded limits (s.pushLine limits line) := by
  unfold ReadState.pushLine
  split
  case isTrue => exact h.fail _ s.reader
  case isFalse hshort =>
    cases s.reader.readByte with
    | mk result reader =>
    cases result with
    | error e => exact h.fail e reader
    | ok byte =>
      simp only
      cases hgrow : grow s.lineCap (line.length + 1) with
      | none => exact h.fail .capacityOverflow reader
      | some cap =>
        obtain ⟨hroom, hmax, hcap⟩ := le_of_grow hgrow
        exact
          { h with
            lineCap := hcap limits.maxTrailerBytes _ (by omega) (by omega) h.lineCap
            lineMax := hmax h.lineMax
            line := by
              rintro l hl
              cases hl
              simpa using hroom
            trailer := by
              rintro n hn
              cases hn }

theorem Bounded.endLine (h : s.Bounded limits) (line : Bytes) :
    Bounded limits (s.endLine limits line) := by
  unfold ReadState.endLine
  split
  case isTrue => exact h.fail _ s.reader
  case isFalse hlimit =>
    refine h.extend (Nat.le_of_not_lt hlimit) (fun l hl => ?_) (fun n hn => ?_) s.reader
    · split at hl
      · cases hl
      · split at hl <;> cases hl
    · split at hn
      · cases hn
      · split at hn
        · cases hn
          exact Nat.zero_le _
        · cases hn

theorem Bounded.readChunk (h : s.Bounded limits) (size : Nat) :
    Bounded limits (s.readChunk limits size) := by
  unfold ReadState.readChunk
  split
  case isTrue => exact h.fail _ s.reader
  case isFalse =>
    cases s.reader.readExact (payloadAndCrlf size) with
    | mk result reader =>
    cases result with
    | error e => exact h.fail e reader
    | ok chunk =>
      simp only
      split
      case isTrue => exact h.fail _ reader
      case isFalse hlimit =>
        exact h.extend (Nat.le_of_not_lt hlimit) (by simp) (by simp) reader

theorem Bounded.pushTrailer (h : s.Bounded limits) {n : Nat} (hn : n ≤ s.totalWireBytes) :
    Bounded limits (s.pushTrailer limits n) := by
  unfold ReadState.pushTrailer
  cases s.reader.readByte with
  | mk result reader =>
  cases result with
  | error e => exact h.fail e reader
  | ok byte =>
    simp only
    split
    case isTrue => exact h.fail _ reader
    case isFalse =>
      split
      case isTrue => exact h.fail _ reader
      case isFalse hlimit =>
        refine h.extend (by simpa using hlimit) (fun l hl => ?_) (fun m hm => ?_) reader
        · split at hl <;> cases hl
        · split at hm
          · cases hm
          · cases hm
            simpa using hn

theorem Bounded.step (h : s.Bounded limits) : Bounded limits (s.step limits) := by
  unfold ReadState.step
  split
  case h_1 line hphase =>
    split
    · exact h.endLine line
    · exact h.pushLine line
  case h_2 size hphase => exact h.readChunk size
  case h_3 size hphase =>
    exact
      { h with
        line := by
          rintro l hl
          cases hl
          exact Nat.zero_le _
        trailer := by
          rintro n hn
          cases hn }
  case h_4 n hphase => exact h.pushTrailer (h.trailer n hphase)
  case h_5 => exact h

/-- Only the size of a chunk can make a sum overflow. -/
theorem Bounded.noOverflow (h : s.Bounded limits)
    (hsize : ∀ size, s.phase = .chunk size → size + 2 ≤ usizeMax) : s.NoOverflow := by
  have htotal : s.totalWireBytes ≤ isizeMax := by
    have := h.output
    have := h.room
    have := h.outputMax
    omega
  have hdouble : isizeMax + isizeMax + 1 ≤ usizeMax := by decide
  unfold NoOverflow
  split
  case h_1 line hphase =>
    have := h.line line hphase
    have := h.lineMax
    omega
  case h_2 size hphase => exact ⟨hsize size hphase, fun hcap => by omega⟩
  case h_3 => trivial
  case h_4 n hphase =>
    have := h.trailer n hphase
    omega
  case h_5 => trivial

/-! ### The end of a run -/

/-- A line puts the total over the limit, or the run has failed. -/
def Doomed (limits : ChunkLimits) (s : ReadState) : Prop :=
  (∃ line, s.phase = .line line ∧ limits.maxBodyBytes < s.totalWireBytes + line.length) ∨
    ∃ e, s.phase = .done (.error e)

theorem Doomed.step (h : s.Doomed limits) : Doomed limits (s.step limits) := by
  rcases h with ⟨line, hphase, hover⟩ | ⟨e, hphase⟩
  · unfold ReadState.step
    rw [hphase]
    simp only
    split
    · unfold ReadState.endLine
      rw [if_pos hover]
      exact .inr ⟨_, rfl⟩
    · unfold ReadState.pushLine
      split
      · exact .inr ⟨_, rfl⟩
      · cases s.reader.readByte with
        | mk result reader =>
        cases result with
        | error e => exact .inr ⟨_, rfl⟩
        | ok byte =>
          simp only
          cases grow s.lineCap (line.length + 1) with
          | none => exact .inr ⟨_, rfl⟩
          | some cap => exact .inl ⟨line ++ [byte], rfl, by simp; omega⟩
  · have hstep : s.step limits = s := by
      unfold ReadState.step
      rw [hphase]
    rw [hstep]
    exact .inr ⟨e, hphase⟩

theorem Doomed.iterate (h : s.Doomed limits) (n : Nat) :
    Doomed limits ((ReadState.step limits)^[n] s) := by
  induction n with
  | zero => exact h
  | succ n ih =>
    rw [Function.iterate_succ_apply']
    exact ih.step

/-- Decreases with every step until the run is done: a chunk may be empty, but its
    line was not. -/
def weight (s : ReadState) : Nat :=
  4 * s.reader.input.length +
    match s.phase with
    | .line line => 2 * line.length + 1
    | .chunk _ => 3
    | .stored _ => 2
    | .trailer _ => 1
    | .done _ => 0

theorem extend_phase (s : ReadState) (bytes : Bytes) (next : ReadPhase) :
    (∃ e, (s.extend bytes next).phase = .done (.error e)) ∨
      ((s.extend bytes next).phase = next ∧ (s.extend bytes next).reader = s.reader) := by
  unfold ReadState.extend
  cases grow s.outputCap (s.output.length + bytes.length) with
  | none => exact .inl ⟨_, rfl⟩
  | some cap => exact .inr ⟨rfl, rfl⟩

/-- A byte that was read is no longer there to be read. -/
theorem input_readByte {reader reader' : PrefixReader} {b : UInt8}
    (h : reader.readByte = (.ok b, reader')) : reader.input = b :: reader'.input := by
  cases hinput : reader.input with
  | nil =>
    obtain ⟨e, reader₁, hread⟩ := PrefixReader.readByte_nil hinput
    rw [h] at hread
    cases hread
  | cons first rest =>
    obtain ⟨reader₁, hread, hrest⟩ := PrefixReader.readByte_cons hinput
    rw [h] at hread
    cases hread
    rw [hrest]

theorem input_readExact {reader reader' : PrefixReader} {len : Nat} {chunk : Bytes}
    (h : reader.readExact len = (.ok chunk, reader')) :
    chunk.length = len ∧ reader.input = chunk ++ reader'.input := by
  rcases Nat.lt_or_ge reader.input.length len with hlt | hle
  · obtain ⟨e, reader₁, hread⟩ := PrefixReader.readExact_of_lt hlt
    rw [h] at hread
    cases hread
  · obtain ⟨reader₁, hread, hinput⟩ := PrefixReader.readExact_of_le hle
    rw [h] at hread
    cases hread
    exact ⟨List.length_take_of_le hle, by rw [hinput, List.take_append_drop]⟩

/-- After a growth of the output the run is done, or the next phase weighs less. -/
theorem weight_extend {bytes : Bytes} {next : ReadPhase} {bound : Nat}
    (hnext : (∃ r, next = .done r) ∨ weight { s with phase := next } < bound) :
    (∃ r, (s.extend bytes next).phase = .done r) ∨ weight (s.extend bytes next) < bound := by
  rcases extend_phase s bytes next with ⟨e, hfailed⟩ | ⟨hphase, hreader⟩
  · exact .inl ⟨_, hfailed⟩
  · rcases hnext with ⟨r, hdone⟩ | hlt
    · exact .inl ⟨r, hphase.trans hdone⟩
    · refine .inr ?_
      unfold weight at hlt ⊢
      rw [hphase, hreader]
      exact hlt

theorem step_weight (limits : ChunkLimits) (s : ReadState) :
    (∃ r, (s.step limits).phase = .done r) ∨ weight (s.step limits) < weight s := by
  unfold ReadState.step
  split
  case h_1 line hphase =>
    have hweight : weight s = 4 * s.reader.input.length + (2 * line.length + 1) := by
      rw [weight, hphase]
    split
    case isTrue hends =>
      have htwo := hends.length_le
      unfold ReadState.endLine
      split
      · exact .inl ⟨_, rfl⟩
      · refine weight_extend ?_
        cases chunkSize line with
        | none => exact .inl ⟨_, rfl⟩
        | some size =>
          refine .inr ?_
          simp only [crlf, List.length_cons, List.length_nil] at htwo
          rw [hweight]
          by_cases hsize : size = 0
          · simp only [hsize, if_true, weight]
            omega
          · simp only [hsize, if_false, weight]
            omega
    case isFalse =>
      unfold ReadState.pushLine
      split
      · exact .inl ⟨_, rfl⟩
      · cases hread : s.reader.readByte with
        | mk result reader =>
        cases result with
        | error e => exact .inl ⟨_, rfl⟩
        | ok byte =>
          simp only
          cases grow s.lineCap (line.length + 1) with
          | none => exact .inl ⟨_, rfl⟩
          | some cap =>
            have hless := congrArg List.length (input_readByte hread)
            rw [List.length_cons] at hless
            refine .inr ?_
            rw [hweight]
            simp only [weight, List.length_append, List.length_cons, List.length_nil]
            omega
  case h_2 size hphase =>
    have hweight : weight s = 4 * s.reader.input.length + 3 := by rw [weight, hphase]
    unfold ReadState.readChunk
    split
    · exact .inl ⟨_, rfl⟩
    · cases hread : s.reader.readExact (payloadAndCrlf size) with
      | mk result reader =>
      cases result with
      | error e => exact .inl ⟨_, rfl⟩
      | ok chunk =>
        have hless := congrArg List.length (input_readExact hread).2
        rw [List.length_append] at hless
        simp only
        split
        · exact .inl ⟨_, rfl⟩
        · refine weight_extend (.inr ?_)
          rw [hweight]
          simp only [weight]
          omega
  case h_3 size hphase =>
    refine .inr ?_
    simp only [weight, hphase, List.length_nil]
    omega
  case h_4 n hphase =>
    have hweight : weight s = 4 * s.reader.input.length + 1 := by rw [weight, hphase]
    unfold ReadState.pushTrailer
    cases hread : s.reader.readByte with
    | mk result reader =>
    cases result with
    | error e => exact .inl ⟨_, rfl⟩
    | ok byte =>
      have hless := congrArg List.length (input_readByte hread)
      rw [List.length_cons] at hless
      simp only
      split
      · exact .inl ⟨_, rfl⟩
      · split
        · exact .inl ⟨_, rfl⟩
        · refine weight_extend ?_
          split
          · exact .inl ⟨_, rfl⟩
          · refine .inr ?_
            rw [hweight]
            simp only [weight]
            omega
  case h_5 r hphase => exact .inl ⟨r, hphase⟩

/-- A chunk is stored in the step after its buffer was asked for. -/
theorem chunk_of_stored {size : Nat} (h : (s.step limits).phase = .stored size) :
    s.phase = .chunk size := by
  have hextend (t : ReadState) (bytes : Bytes) (next : ReadPhase)
      (ht : (t.extend bytes next).phase = .stored size) : next = .stored size := by
    rcases extend_phase t bytes next with ⟨e, hfailed⟩ | ⟨hphase, -⟩
    · rw [hfailed] at ht
      cases ht
    · exact hphase.symm.trans ht
  unfold ReadState.step at h
  split at h
  case h_1 line hphase =>
    split at h
    · unfold ReadState.endLine at h
      split at h
      · cases h
      · have hnext := hextend _ _ _ h
        split at hnext
        · cases hnext
        · split at hnext <;> cases hnext
    · unfold ReadState.pushLine at h
      repeat' split at h
      all_goals cases h
  case h_2 other hphase =>
    unfold ReadState.readChunk at h
    split at h
    · cases h
    · split at h
      · cases h
      · split at h
        · cases h
        · cases hextend _ _ _ h
          exact hphase
  case h_3 => cases h
  case h_4 n hphase =>
    unfold ReadState.pushTrailer at h
    split at h
    · cases h
    · split at h
      · cases h
      · split at h
        · cases h
        · have hnext := hextend _ _ _ h
          split at hnext <;> cases hnext
  case h_5 r hphase =>
    rw [hphase] at h
    cases h

/-- A stored chunk has been counted. -/
theorem payload_le_of_stored {size : Nat} (h : (s.step limits).phase = .stored size) :
    payloadAndCrlf size ≤ (s.step limits).totalWireBytes := by
  have hphase := chunk_of_stored h
  unfold ReadState.step at h ⊢
  rw [hphase] at h ⊢
  simp only at h ⊢
  unfold ReadState.readChunk at h ⊢
  split at h
  case isTrue => cases h
  case isFalse hcap =>
    rw [if_neg hcap]
    cases hread : s.reader.readExact (payloadAndCrlf size) with
    | mk result reader =>
    rw [hread] at h
    cases result with
    | error e => cases h
    | ok chunk =>
      simp only at h ⊢
      split at h
      case isTrue => cases h
      case isFalse hlimit =>
        rw [if_neg hlimit]
        unfold ReadState.extend at h ⊢
        simp only at h ⊢
        cases hgrow : grow s.outputCap (s.output.length + chunk.length) with
        | none =>
          rw [hgrow] at h
          cases h
        | some cap =>
          simp only
          rw [(input_readExact hread).1]
          exact Nat.le_add_left _ _

/-- Every run ends. -/
theorem ends (limits : ChunkLimits) (s : ReadState) :
    ∃ n r, ((ReadState.step limits)^[n] s).phase = .done r := by
  induction hw : weight s using Nat.strong_induction_on generalizing s with
  | _ w ih =>
    rcases step_weight limits s with ⟨r, hdone⟩ | hlt
    · exact ⟨1, r, hdone⟩
    · obtain ⟨n, r, hdone⟩ := ih _ (hw ▸ hlt) (s.step limits) rfl
      exact ⟨n + 1, r, hdone⟩

/-! ### The result of a run -/

/-- The run from `s` ends with `r`, or with the panic of a buffer that cannot grow. -/
def Results (limits : ChunkLimits) (s : ReadState) (r : Except ReadFailure Bytes) : Prop :=
  ∃ n, ((ReadState.step limits)^[n] s).phase = .done r ∨
    ((ReadState.step limits)^[n] s).phase = .done (.error .capacityOverflow)

variable {r : Except ReadFailure Bytes}

theorem Results.of_step (h : Results limits (s.step limits) r) : Results limits s r := by
  obtain ⟨n, h⟩ := h
  exact ⟨n + 1, h⟩

theorem results_of_done (h : s.phase = .done r) : Results limits s r := ⟨0, .inl h⟩

theorem results_of_overflow : Results limits (s.fail .capacityOverflow) r := ⟨0, .inr rfl⟩

theorem results_extend {bytes : Bytes} {next : ReadPhase}
    (h : ∀ cap, Results limits
      { s with
        phase := next
        totalWireBytes := s.totalWireBytes + bytes.length
        output := s.output ++ bytes
        outputCap := cap } r) :
    Results limits (s.extend bytes next) r := by
  unfold ReadState.extend
  cases grow s.outputCap (s.output.length + bytes.length) with
  | none => exact results_of_overflow
  | some cap => exact h cap

/-- The steps over a size line do what `readLineLoop` does. -/
theorem results_line (room : Nat) {line : Bytes} (hphase : s.phase = .line line)
    (hroom : line.length + room = limits.maxTrailerBytes)
    (herror : ∀ e reader, readLineLoop limits room line s.reader = (.error e, reader) →
      r = .error e)
    (hok : ∀ l reader cap, readLineLoop limits room line s.reader = (.ok l, reader) → crlf <:+ l →
      Results limits { s with phase := .line l, lineCap := cap, reader } r) :
    Results limits s r := by
  induction room generalizing s line with
  | zero =>
    unfold readLineLoop at herror hok
    split at hok
    · next hends =>
      obtain ⟨phase, total, output, outputCap, lineCap, reader⟩ := s
      cases hphase
      exact hok line reader lineCap rfl hends
    · next hends =>
      apply Results.of_step
      unfold ReadState.step
      rw [hphase]
      simp only [hends, if_false]
      unfold ReadState.pushLine
      rw [if_pos (by omega)]
      refine results_of_done ?_
      rw [herror _ _ (if_neg hends)]
      rfl
  | succ room ih =>
    unfold readLineLoop at herror hok
    split at hok
    · next hends =>
      obtain ⟨phase, total, output, outputCap, lineCap, reader⟩ := s
      cases hphase
      exact hok line reader lineCap rfl hends
    · next hends =>
      rw [if_neg hends] at herror
      apply Results.of_step
      unfold ReadState.step
      rw [hphase]
      simp only [hends, if_false]
      unfold ReadState.pushLine
      rw [if_neg (by omega)]
      cases hread : s.reader.readByte with
      | mk result reader =>
      cases result with
      | error e =>
        refine results_of_done ?_
        rw [hread] at herror
        rw [herror e reader rfl]
        rfl
      | ok byte =>
        rw [hread] at herror hok
        simp only at herror hok ⊢
        cases grow s.lineCap (line.length + 1) with
        | none => exact results_of_overflow
        | some cap => exact ih rfl (by simp; omega) herror hok

/-- The steps over the trailer section do what `readTrailerLoop` does. -/
theorem results_trailer {fuel n : Nat} (hphase : s.phase = .trailer n)
    (hn : n ≤ limits.maxTrailerBytes) (hfuel : limits.maxTrailerBytes < fuel + n) :
    Results limits s (readTrailerLoop limits fuel n s.totalWireBytes s.output s.reader) := by
  induction fuel generalizing s n with
  | zero => omega
  | succ fuel ih =>
    apply Results.of_step
    unfold ReadState.step readTrailerLoop
    rw [hphase]
    simp only
    unfold ReadState.pushTrailer
    cases s.reader.readByte with
    | mk result reader =>
    cases result with
    | error e => exact results_of_done rfl
    | ok byte =>
      simp only
      split
      · exact results_of_done rfl
      · split
        · exact results_of_done rfl
        · refine results_extend fun cap => ?_
          split
          · exact results_of_done rfl
          · exact ih rfl (by omega) (by omega)

/-- The steps over the chunks do what `readChunksLoop` does. -/
theorem results_chunks {fuel : Nat} (hphase : s.phase = .line [])
    (htotal : s.totalWireBytes ≤ limits.maxBodyBytes)
    (hfuel : limits.maxBodyBytes < fuel + s.totalWireBytes) :
    Results limits s (readChunksLoop limits fuel s.totalWireBytes s.output s.reader) := by
  induction fuel generalizing s with
  | zero => omega
  | succ fuel ih =>
    unfold readChunksLoop
    refine results_line limits.maxTrailerBytes hphase (by simp) (fun e reader hline => ?_)
      fun line reader lineCap hline hends => ?_
    · rw [hline]
    rw [hline]
    have htwo := hends.length_le
    simp only [crlf, List.length_cons, List.length_nil] at htwo
    apply Results.of_step
    unfold ReadState.step
    simp only [hends, if_true]
    unfold ReadState.endLine
    simp only
    split
    · exact results_of_done rfl
    refine results_extend fun cap => ?_
    cases chunkSize line with
    | none => exact results_of_done rfl
    | some size =>
      simp only
      split
      · exact results_trailer rfl (Nat.zero_le _) (by omega)
      apply Results.of_step
      unfold ReadState.step
      simp only
      unfold ReadState.readChunk
      split
      · exact results_of_overflow
      simp only
      cases reader.readExact (payloadAndCrlf size) with
      | mk result reader =>
      cases result with
      | error e => exact results_of_done rfl
      | ok chunk =>
        simp only
        split
        · exact results_of_done rfl
        refine results_extend fun cap => ?_
        -- the buffer of the chunk goes, and the next line begins
        apply Results.of_step
        unfold ReadState.step
        exact ih rfl (by simp only; omega) (by simp only; omega)

end ReadState

/-! ### Runs -/

structure ChunkedInput where
  source : Source
  prefixBytes : Bytes
  limits : ChunkLimits

/-- The state after `n` steps. -/
def ChunkedInput.moment (input : ChunkedInput) (n : Nat) : ReadState :=
  (ReadState.step input.limits)^[n] (.start input.source input.prefixBytes)

def ChunkedInput.limit (input : ChunkedInput) : Nat :=
  input.limits.maxBodyBytes + input.limits.maxTrailerBytes

/-- At every moment of the run the buffers have at most `a` times the limits and `b`
    bytes more, no sum overflows, and the run ends in an error if more has been taken
    from the wire than the limit on the body. -/
def BoundedReading (a b : Nat) (input : ChunkedInput) : Prop :=
  ∀ n, (input.moment n).allocated ≤ a * input.limit + b ∧ (input.moment n).NoOverflow ∧
    (input.limits.maxBodyBytes < (input.moment n).wireBytes →
      ∃ k e, (input.moment (n + k)).phase = .done (.error e))

/-- A run ends with what `readChunkedHttpResponseBody` returns, unless a buffer
    cannot grow. -/
theorem run_result (input : ChunkedInput) :
    ∃ n, (input.moment n).phase =
        .done (readChunkedHttpResponseBody input.source input.prefixBytes input.limits) ∨
      (input.moment n).phase = .done (.error .capacityOverflow) :=
  ReadState.results_chunks (s := .start input.source input.prefixBytes) rfl (Nat.zero_le _)
    (Nat.lt_succ_self _)

section runs
variable (input : ChunkedInput)

theorem ChunkedInput.moment_succ (n : Nat) :
    input.moment (n + 1) = (input.moment n).step input.limits :=
  Function.iterate_succ_apply' ..

theorem ChunkedInput.bounded (n : Nat) : (input.moment n).Bounded input.limits := by
  induction n with
  | zero => exact ReadState.bounded_start _ _
  | succ n ih =>
    rw [input.moment_succ]
    exact ih.step

/-- A run that has taken too much ends in an error. -/
theorem ChunkedInput.fails {n : Nat}
    (h : input.limits.maxBodyBytes < (input.moment n).wireBytes) :
    ∃ k e, (input.moment (n + k)).phase = .done (.error e) := by
  have htotal := (input.bounded n).total
  have hdoomed : (input.moment n).Doomed input.limits := by
    unfold ReadState.wireBytes at h
    cases hphase : (input.moment n).phase with
    | line line =>
      rw [hphase] at h
      exact .inl ⟨line, hphase, h⟩
    | _ =>
      rw [hphase] at h
      simp only at h
      omega
  obtain ⟨k, r, hdone⟩ := ReadState.ends input.limits (input.moment n)
  have hmoment : input.moment (n + k) = (ReadState.step input.limits)^[k] (input.moment n) := by
    rw [Nat.add_comm]
    exact Function.iterate_add_apply ..
  rcases hdoomed.iterate k with ⟨line, hline, -⟩ | ⟨e, he⟩
  · rw [hdone] at hline
    cases hline
  · exact ⟨k, e, by rw [hmoment, he]⟩

/-- Without the buffer of a chunk that is not yet read, three times the limits are
    enough: a chunk that was read has been counted. -/
theorem ChunkedInput.allocated_le {n : Nat} (h : ∀ size, (input.moment n).phase ≠ .chunk size) :
    (input.moment n).allocated ≤ 3 * input.limit + 72 := by
  have hbounded := input.bounded n
  have houtput := hbounded.outputCap
  have hline := hbounded.lineCap
  have htotal := hbounded.total
  unfold ReadState.allocated ChunkedInput.limit
  split
  case h_1 size hphase => exact absurd hphase (h size)
  case h_2 size hphase =>
    have hcounted : payloadAndCrlf size ≤ (input.moment n).totalWireBytes := by
      cases n with
      | zero => cases hphase
      | succ n =>
        rw [input.moment_succ] at hphase ⊢
        exact ReadState.payload_le_of_stored hphase
    omega
  case h_3 => omega

/-- What is allocated with that buffer. -/
theorem ChunkedInput.allocated_chunk {n size : Nat} (h : (input.moment n).phase = .chunk size)
    (hsize : size + 2 ≤ usizeMax) :
    (input.moment n).allocated =
      (input.moment n).lineCap + (input.moment n).outputCap + (size + 2) := by
  unfold ReadState.allocated
  rw [h]
  exact congrArg _ (Nat.mod_eq_of_lt (Nat.lt_succ_of_le hsize))

end runs

end Synvoid.Mesh
