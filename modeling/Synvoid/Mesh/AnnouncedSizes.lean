import Synvoid.Mesh.ChunkedMemory

/-! # Announced sizes

    Which chunk sizes a run of `read_chunked_http_response_body` comes to is read
    off the received bytes: the input begins with chunks that are read, and with a
    size line behind them (`ChunkedInput.Announces`).

    A moment at which a buffer for a chunk is asked for stands behind such a line
    (`announces_of_moment`), and every such line is come to
    (`moment_of_announces`), at least with a limit on the body that a vector can
    hold twice. So the buffers are bounded by the limits just when the announced
    sizes are (`bounded_reading_iff`).
-/

namespace Synvoid.Mesh

open Synvoid.Framework
open Synvoid.Http

/-! ### Sizes in the received bytes -/

/-- What the peer has sent, up to the first failure of the connection. -/
def ChunkedInput.received (input : ChunkedInput) : Bytes :=
  input.prefixBytes ++ input.source.available

/-- The bytes begin with chunks and, in the limits, a size line that is not the
    last one. -/
def Announces (limits : ChunkLimits) (bytes : Bytes) (size : Nat) : Prop :=
  ∃ (chunks : List WireChunk) (line : Bytes), (∀ chunk ∈ chunks, chunk.Read limits) ∧
    LineRead limits size line ∧ size ≠ 0 ∧ chunks.flatMap WireChunk.bytes ++ line <+: bytes ∧
    (chunks.flatMap WireChunk.bytes ++ line).length ≤ limits.maxBodyBytes

/-- Two more than every announced size is a number of the machine, and at most `a`
    times the limits and `b`. -/
def SizesFit (a b : Nat) (input : ChunkedInput) : Prop :=
  ∀ size, Announces input.limits input.received size →
    size + 2 ≤ usizeMax ∧ size + 2 ≤ a * input.limit + b

/-! ### Where a run stands in the received bytes -/

namespace ReadState

/-- Chunks that were read, and `more` behind them, have been taken from the received
    bytes. -/
structure Behind (limits : ChunkLimits) (bytes : Bytes) (s : ReadState)
    (chunks : List WireChunk) (more : Bytes) : Prop where
  read : ∀ chunk ∈ chunks, chunk.Read limits
  place : chunks.flatMap WireChunk.bytes ++ more ++ s.reader.input = bytes

/-- Where a state stands in the received bytes: in a line, behind the line of a
    chunk, or behind a chunk. -/
def Located (limits : ChunkLimits) (bytes : Bytes) (s : ReadState) : Prop :=
  match s.phase with
  | .line line =>
      ∃ chunks, s.Behind limits bytes chunks line ∧
        s.totalWireBytes = (chunks.flatMap WireChunk.bytes).length ∧
        line.length ≤ limits.maxTrailerBytes ∧ ∀ p, p <+: line → crlf <:+ p → p = line
  | .chunk size =>
      ∃ chunks line, s.Behind limits bytes chunks line ∧
        s.totalWireBytes = (chunks.flatMap WireChunk.bytes ++ line).length ∧
        LineRead limits size line ∧ size ≠ 0
  | .stored _ =>
      ∃ chunks, s.Behind limits bytes chunks [] ∧
        s.totalWireBytes = (chunks.flatMap WireChunk.bytes).length
  | .trailer _ => True
  | .done _ => True

variable {limits : ChunkLimits} {bytes : Bytes} {s : ReadState}

theorem located_start (limits : ChunkLimits) (source : Source) (prefixBytes : Bytes) :
    (start source prefixBytes).Located limits (prefixBytes ++ source.available) := by
  refine ⟨[], ⟨by simp, ?_⟩, rfl, Nat.zero_le _, fun p hp _ => List.prefix_nil.mp hp⟩
  simp [start, PrefixReader.new, PrefixReader.input, PrefixReader.pending]

theorem located_of_done {r : Except ReadFailure Bytes} (h : s.phase = .done r) :
    s.Located limits bytes := by
  unfold Located
  rw [h]
  trivial

/-- After the output has grown the state stands where the next phase says, if the
    growth did not fail. -/
theorem located_extend {more : Bytes} {next : ReadPhase}
    (h : ∀ cap, Located limits bytes
      { s with
        phase := next
        totalWireBytes := s.totalWireBytes + more.length
        output := s.output ++ more
        outputCap := cap }) :
    Located limits bytes (s.extend more next) := by
  unfold ReadState.extend
  cases grow s.outputCap (s.output.length + more.length) with
  | none => exact located_of_done rfl
  | some cap => exact h cap

theorem Located.pushLine {line : Bytes} (hphase : s.phase = .line line)
    (hends : ¬ crlf <:+ line) (h : s.Located limits bytes) :
    Located limits bytes (s.pushLine limits line) := by
  unfold Located at h
  rw [hphase] at h
  obtain ⟨chunks, hbehind, htotal, -, hfirst⟩ := h
  unfold ReadState.pushLine
  -- a line that is too long, an error of the reader or a failed growth ends the run
  split
  case isTrue => exact located_of_done rfl
  case isFalse hshort =>
    cases hread : s.reader.readByte with
    | mk result reader =>
    cases result with
    | error e => exact located_of_done rfl
    | ok byte =>
      simp only
      cases grow s.lineCap (line.length + 1) with
      | none => exact located_of_done rfl
      | some cap =>
        have hinput := input_readByte hread
        refine ⟨chunks, ⟨hbehind.read, ?_⟩, htotal, ?_, fun p hp hsuffix => ?_⟩
        · rw [← hbehind.place, hinput]
          simp
        · simp only [List.length_append, List.length_singleton]
          omega
        · rcases List.prefix_concat_iff.mp hp with rfl | hp
          · rfl
          · exact absurd (hfirst p hp hsuffix ▸ hsuffix) hends

theorem Located.endLine {line : Bytes} (hphase : s.phase = .line line) (hends : crlf <:+ line)
    (h : s.Located limits bytes) : Located limits bytes (s.endLine limits line) := by
  unfold Located at h
  rw [hphase] at h
  obtain ⟨chunks, hbehind, htotal, hshort, hfirst⟩ := h
  unfold ReadState.endLine
  split
  case isTrue => exact located_of_done rfl
  case isFalse =>
    refine located_extend fun cap => ?_
    cases hsize : chunkSize line with
    | none => exact located_of_done rfl
    | some size =>
      simp only
      -- the size 0 is the end of the chunks
      split
      case isTrue => trivial
      case isFalse hne =>
        refine ⟨chunks, line, ⟨hbehind.read, hbehind.place⟩, ?_, ⟨⟨hends, hfirst⟩, hshort, hsize⟩,
          hne⟩
        rw [List.length_append, ← htotal]

theorem Located.readChunk {size : Nat} (hphase : s.phase = .chunk size)
    (h : s.Located limits bytes) : Located limits bytes (s.readChunk limits size) := by
  unfold Located at h
  rw [hphase] at h
  obtain ⟨chunks, line, hbehind, htotal, hline, hne⟩ := h
  unfold ReadState.readChunk
  split
  case isTrue => exact located_of_done rfl
  case isFalse hcapacity =>
    cases hread : s.reader.readExact (payloadAndCrlf size) with
    | mk result reader =>
    cases result with
    | error e => exact located_of_done rfl
    | ok chunk =>
      obtain ⟨hlength, hinput⟩ := input_readExact hread
      simp only
      split
      case isTrue => exact located_of_done rfl
      case isFalse =>
        refine located_extend fun cap => ?_
        -- the chunk is behind the state now, with its line
        refine ⟨chunks ++ [⟨line, chunk⟩], ⟨fun c hc => ?_, ?_⟩, ?_⟩
        · rcases List.mem_append.mp hc with hc | hc
          · exact hbehind.read c hc
          · obtain rfl := List.mem_singleton.mp hc
            exact ⟨⟨size, hline, hne, hlength⟩, by rw [hlength]; omega⟩
        · rw [← hbehind.place, hinput]
          simp [WireChunk.bytes]
        · simp only [htotal, List.flatMap_append, List.flatMap_singleton, WireChunk.bytes,
            List.length_append]
          omega

theorem Located.pushTrailer (n : Nat) : Located limits bytes (s.pushTrailer limits n) := by
  unfold ReadState.pushTrailer
  cases s.reader.readByte with
  | mk result reader =>
  cases result with
  | error e => exact located_of_done rfl
  | ok byte =>
    simp only
    split
    · exact located_of_done rfl
    · split
      · exact located_of_done rfl
      · refine located_extend fun cap => ?_
        split
        · exact located_of_done rfl
        · trivial

theorem Located.step (h : s.Located limits bytes) : Located limits bytes (s.step limits) := by
  unfold ReadState.step
  split
  case h_1 line hphase =>
    split
    case isTrue hends => exact h.endLine hphase hends
    case isFalse hends => exact h.pushLine hphase hends
  case h_2 size hphase => exact h.readChunk hphase
  case h_3 size hphase =>
    unfold Located at h
    rw [hphase] at h
    obtain ⟨chunks, hbehind, htotal⟩ := h
    exact ⟨chunks, ⟨hbehind.read, hbehind.place⟩, htotal, Nat.zero_le _,
      fun p hp _ => List.prefix_nil.mp hp⟩
  case h_4 n hphase => exact Located.pushTrailer n
  case h_5 => exact h

/-! ### Every announced size is come to -/

/-- The run from `s` comes to the chunk. -/
def ComesTo (limits : ChunkLimits) (s : ReadState) (size : Nat) : Prop :=
  ∃ n, ((ReadState.step limits)^[n] s).phase = .chunk size

variable {size : Nat}

theorem ComesTo.of_step (h : ComesTo limits (s.step limits) size) : ComesTo limits s size := by
  obtain ⟨n, h⟩ := h
  exact ⟨n + 1, h⟩

/-- A vector can grow while it needs no more than half of the largest capacity. -/
theorem exists_grow (cap : Nat) {needed : Nat} (h : needed ≤ isizeMax / 2) :
    ∃ cap', grow cap needed = some cap' := by
  have height : 8 ≤ isizeMax := by decide
  unfold grow
  split
  · exact ⟨_, rfl⟩
  · rw [if_pos (by omega)]
    exact ⟨_, rfl⟩

theorem comesTo_extend {more : Bytes} {next : ReadPhase}
    (hfits : s.output.length + more.length ≤ isizeMax / 2)
    (h : ∀ cap, ComesTo limits
      { s with
        phase := next
        totalWireBytes := s.totalWireBytes + more.length
        output := s.output ++ more
        outputCap := cap } size) :
    ComesTo limits (s.extend more next) size := by
  obtain ⟨cap, hgrow⟩ := exists_grow s.outputCap hfits
  unfold ReadState.extend
  rw [hgrow]
  exact h cap

/-- The steps over a line that the input begins with. -/
theorem comesTo_line {line more rest : Bytes} (hphase : s.phase = .line line)
    (hends : EndsFirst crlf (line ++ more)) (hinput : s.reader.input = more ++ rest)
    (hshort : (line ++ more).length ≤ limits.maxTrailerBytes)
    (hfits : (line ++ more).length ≤ isizeMax / 2)
    (h : ∀ reader cap, reader.input = rest → ComesTo limits
      { s with phase := .line (line ++ more), lineCap := cap, reader } size) :
    ComesTo limits s size := by
  induction more generalizing s line with
  | nil =>
    rw [List.append_nil] at h
    obtain ⟨phase, total, output, outputCap, lineCap, reader⟩ := s
    cases hphase
    exact h reader lineCap hinput
  | cons byte more ih =>
    -- the line does not end before its last byte
    have hopen : ¬ crlf <:+ line := by
      intro hline
      have hwhole := hends.first line (List.prefix_append _ _) hline
      simp at hwhole
    have hlength : (line ++ byte :: more).length = line.length + 1 + more.length := by
      simp only [List.length_append, List.length_cons]
      omega
    rw [hlength] at hshort hfits
    obtain ⟨reader, hread, hrest⟩ := PrefixReader.readByte_cons hinput
    obtain ⟨cap, hgrow⟩ := exists_grow s.lineCap (show line.length + 1 ≤ _ by omega)
    apply ComesTo.of_step
    unfold ReadState.step
    rw [hphase]
    simp only [hopen, if_false]
    unfold ReadState.pushLine
    rw [if_neg (by omega), hread]
    simp only [hgrow]
    rw [List.append_cons] at hends h
    refine ih rfl hends hrest ?_ ?_ h
    · simp only [List.length_append, List.length_singleton]
      omega
    · simp only [List.length_append, List.length_singleton]
      omega

/-- The steps over chunks and the line behind them. -/
theorem comesTo_chunks {chunks : List WireChunk} {line : Bytes} (hphase : s.phase = .line [])
    (houtput : s.output.length = s.totalWireBytes)
    (hchunks : ∀ chunk ∈ chunks, chunk.Read limits) (hline : LineRead limits size line)
    (hne : size ≠ 0) (hfront : chunks.flatMap WireChunk.bytes ++ line <+: s.reader.input)
    (htotal : s.totalWireBytes + (chunks.flatMap WireChunk.bytes ++ line).length ≤
      limits.maxBodyBytes)
    (hhalf : limits.maxBodyBytes ≤ isizeMax / 2) : ComesTo limits s size := by
  induction chunks generalizing s with
  | nil =>
    simp only [List.flatMap_nil, List.nil_append] at hfront htotal
    obtain ⟨rest, hrest⟩ := hfront
    refine comesTo_line hphase hline.ends hrest.symm hline.short
      (show line.length ≤ _ by omega) fun reader cap hinput => ?_
    apply ComesTo.of_step
    unfold ReadState.step
    simp only [List.nil_append, hline.ends.suffix, if_true]
    unfold ReadState.endLine
    simp only
    rw [if_neg (by omega)]
    refine comesTo_extend (show s.output.length + line.length ≤ _ by omega) fun cap => ?_
    simp only [hline.size, hne, if_false]
    exact ⟨0, rfl⟩
  | cons chunk chunks ih =>
    obtain ⟨front, payload⟩ := chunk
    obtain ⟨⟨size', hfrontLine, hne', hpayload⟩, hcapacity⟩ := hchunks _ (List.mem_cons_self ..)
    simp only at hfrontLine hpayload hcapacity
    have hbytes : List.flatMap WireChunk.bytes (⟨front, payload⟩ :: chunks) ++ line =
        front ++ (payload ++ (chunks.flatMap WireChunk.bytes ++ line)) := by
      simp [WireChunk.bytes]
    rw [hbytes] at hfront htotal
    simp only [List.length_append] at htotal
    obtain ⟨rest, hrest⟩ := hfront
    refine comesTo_line hphase hfrontLine.ends
      (hrest.symm.trans (List.append_assoc ..)) hfrontLine.short
      (show front.length ≤ _ by omega) fun reader cap hinput => ?_
    -- the line of the chunk
    apply ComesTo.of_step
    unfold ReadState.step
    simp only [List.nil_append, hfrontLine.ends.suffix, if_true]
    unfold ReadState.endLine
    simp only
    rw [if_neg (by omega)]
    refine comesTo_extend (show s.output.length + front.length ≤ _ by omega) fun cap => ?_
    simp only [hfrontLine.size, hne', if_false]
    -- its data
    rw [List.append_assoc] at hinput
    have hlong : payloadAndCrlf size' ≤ reader.input.length := by
      rw [hinput, List.length_append]
      omega
    obtain ⟨reader', hexact, hinput'⟩ := PrefixReader.readExact_of_le hlong
    rw [hinput, ← hpayload, List.take_left] at hexact
    rw [hinput, ← hpayload, List.drop_left] at hinput'
    apply ComesTo.of_step
    unfold ReadState.step
    simp only
    unfold ReadState.readChunk
    simp only
    rw [if_neg (by omega), ← hpayload, hexact]
    simp only
    rw [if_neg (by omega)]
    refine comesTo_extend (by simp only [List.length_append]; omega) fun cap => ?_
    -- its buffer goes, and the next line begins
    apply ComesTo.of_step
    unfold ReadState.step
    refine ih rfl ?_ (fun c hc => hchunks c (List.mem_cons_of_mem _ hc)) ⟨rest, hinput'.symm⟩ ?_
    · simp only [List.length_append]
      omega
    · simp only [List.length_append]
      omega

end ReadState

/-! ### Moments and announced sizes -/

section moments
variable {input : ChunkedInput} {a b : Nat}

theorem ChunkedInput.located (input : ChunkedInput) (n : Nat) :
    (input.moment n).Located input.limits input.received := by
  induction n with
  | zero => exact ReadState.located_start ..
  | succ n ih =>
    rw [input.moment_succ]
    exact ih.step

/-- A buffer is asked for only for a size that was announced. -/
theorem announces_of_moment {n size : Nat} (h : (input.moment n).phase = .chunk size) :
    Announces input.limits input.received size := by
  have hlocated := input.located n
  have hbounded := (input.bounded n).total
  unfold ReadState.Located at hlocated
  rw [h] at hlocated
  obtain ⟨chunks, line, hbehind, htotal, hline, hne⟩ := hlocated
  exact ⟨chunks, line, hbehind.read, hline, hne, ⟨_, hbehind.place⟩, htotal ▸ hbounded⟩

/-- A buffer is asked for every size that is announced, unless the limit on the body
    allows so much that a growth can fail before. -/
theorem moment_of_announces {size : Nat} (hhalf : input.limits.maxBodyBytes ≤ isizeMax / 2)
    (h : Announces input.limits input.received size) :
    ∃ n, (input.moment n).phase = .chunk size := by
  obtain ⟨chunks, line, hchunks, hline, hne, hfront, htotal⟩ := h
  refine ReadState.comesTo_chunks (s := .start input.source input.prefixBytes) rfl rfl hchunks hline
    hne ?_ ?_ hhalf
  · simpa [ReadState.start, PrefixReader.new, PrefixReader.input, PrefixReader.pending,
      ChunkedInput.received] using hfront
  · simpa [ReadState.start] using htotal

theorem SizesFit.boundedReading (h : SizesFit a b input) :
    BoundedReading (3 + a) (72 + b) input := by
  intro n
  refine ⟨?_,
    (input.bounded n).noOverflow fun size hphase => (h size (announces_of_moment hphase)).1,
    input.fails⟩
  by_cases hchunk : ∃ size, (input.moment n).phase = .chunk size
  · obtain ⟨size, hphase⟩ := hchunk
    obtain ⟨hcount, hfits⟩ := h size (announces_of_moment hphase)
    have houtput := (input.bounded n).outputCap
    have hline := (input.bounded n).lineCap
    rw [input.allocated_chunk hphase hcount, Nat.add_mul]
    unfold ChunkedInput.limit at hfits ⊢
    omega
  · have hallocated := input.allocated_le fun size hphase => hchunk ⟨size, hphase⟩
    rw [Nat.add_mul]
    omega

theorem BoundedReading.sizesFit (hhalf : input.limits.maxBodyBytes ≤ isizeMax / 2)
    (h : BoundedReading a b input) : SizesFit a b input := by
  intro size hannounced
  obtain ⟨n, hphase⟩ := moment_of_announces hhalf hannounced
  obtain ⟨hallocated, hoverflow, -⟩ := h n
  unfold ReadState.NoOverflow at hoverflow
  rw [hphase] at hoverflow
  rw [input.allocated_chunk hphase hoverflow.1] at hallocated
  exact ⟨hoverflow.1, Nat.le_trans (Nat.le_add_left _ _) hallocated⟩

end moments

/-- **Chunked reading is bounded** for a set of inputs, by some multiple of the limits
    and some constant, if the sizes announced in them are so bounded, and only then
    where twice the limit on a body can be allocated at all. -/
theorem bounded_reading_iff (inputs : Set ChunkedInput) :
    ((∃ a b, ∀ input ∈ inputs, SizesFit a b input) →
      ∃ a b, ∀ input ∈ inputs, BoundedReading a b input) ∧
    ((∀ input ∈ inputs, input.limits.maxBodyBytes ≤ isizeMax / 2) →
      ((∃ a b, ∀ input ∈ inputs, BoundedReading a b input) ↔
        ∃ a b, ∀ input ∈ inputs, SizesFit a b input)) := by
  have henough : (∃ a b, ∀ input ∈ inputs, SizesFit a b input) →
      ∃ a b, ∀ input ∈ inputs, BoundedReading a b input := by
    rintro ⟨a, b, h⟩
    exact ⟨3 + a, 72 + b, fun input hinput => (h input hinput).boundedReading⟩
  refine ⟨henough, fun hhalf => ⟨?_, henough⟩⟩
  rintro ⟨a, b, h⟩
  exact ⟨a, b, fun input hinput => (h input hinput).sizesFit (hhalf input hinput)⟩

/-- A line of sixteen digits `f` announces the largest number there is. -/
private def hugeChunk : ChunkedInput where
  source := []
  prefixBytes := List.replicate 16 102 ++ crlf
  limits := ⟨2000, 100, by decide⟩

/-- No multiple and no constant bound the reading of every input. -/
theorem no_bound_for_all : ¬ ∃ a b, ∀ input, BoundedReading a b input := by
  rintro ⟨a, b, h⟩
  have hphase : (hugeChunk.moment 19).phase = .chunk usizeMax := by decide +kernel
  have hoverflow := (h hugeChunk 19).2.1
  unfold ReadState.NoOverflow at hoverflow
  rw [hphase] at hoverflow
  exact absurd hoverflow.1 (by decide)

end Synvoid.Mesh
