import Synvoid.Http.Grammar
import Synvoid.Mesh.ResponseHead

/-! # Chunked responses of a backend

    Model of `PrefixReader` and `read_chunked_http_response_body`
    (`synvoid-mesh/src/mesh/transport_peer.rs`). The body is handed on as it was
    received, so whoever reads it next has to find its end at the same place.

    The reader takes more than the grammar has: it looks at the text of a size
    only after trimming it, accepts a plus sign, does not look at extensions,
    at the two bytes behind the data of a chunk, or at trailer lines, and adds
    two to the size without a check. `WireBody.Found` says which front of the input it
    takes (`readChunked_ok`), and `relayed_iff_wellFormed` what has to hold of
    its parts for the result to be a chunked body.
-/

namespace Synvoid.Mesh

open Synvoid.Framework
open Synvoid.Http

/-- How a read can end without a body; `vec![0; n]` panics if `n` is above
    `isize::MAX`. -/
inductive ReadFailure where
  | error (e : HttpResponseFramingError)
  | capacityOverflow
  deriving DecidableEq

def chunkReadFailure (e : IoError) : ReadFailure :=
  .error (if e = elapsed then .io "read timeout" else .io e.message)

/-! ### `PrefixReader` -/

structure PrefixReader where
  prefixBytes : Bytes
  prefixExhausted : Bool
  inner : Source

namespace PrefixReader

def new (prefixBytes : Bytes) (inner : Source) : PrefixReader := ⟨prefixBytes, false, inner⟩

def readInnerByte (reader : PrefixReader) : Except ReadFailure UInt8 × PrefixReader :=
  match reader.inner.read 0 with
  | (.error e, inner) => (.error (chunkReadFailure e), { reader with inner })
  | (.ok got, inner) =>
      match got.head? with
      | none => (.error (.error .backendClosedBeforeCompleteResponse), { reader with inner })
      | some b => (.ok b, { reader with inner })

/-- `read_byte_with_timeout`. -/
def readByte (reader : PrefixReader) : Except ReadFailure UInt8 × PrefixReader :=
  if reader.prefixExhausted then reader.readInnerByte
  else
    match reader.prefixBytes with
    | b :: rest => (.ok b, { reader with prefixBytes := rest })
    | [] => { reader with prefixExhausted := true }.readInnerByte

/-- Bytes for a buffer with room for `n` from the prefix. -/
def readPrefix (reader : PrefixReader) (n : Nat) : Bytes × PrefixReader :=
  if reader.prefixExhausted then ([], reader)
  else
    (reader.prefixBytes.take n,
      { reader with
        prefixBytes := reader.prefixBytes.drop n
        prefixExhausted := reader.prefixBytes.isEmpty })

/-- The loop of `read_exact_with_timeout` over a buffer of `len` bytes. Every
    round fills some of it. -/
def readExactLoop (len : Nat) : Nat → Bytes → PrefixReader → Except ReadFailure Bytes × PrefixReader
  | 0, filled, reader => (.ok filled, reader)
  | fuel + 1, filled, reader =>
      if filled.length ≥ len then (.ok filled, reader)
      else
        let (got, reader) := reader.readPrefix (len - filled.length)
        let filled := filled ++ got
        if filled.length = len then (.ok filled, reader)
        else
          match reader.inner.read (len - filled.length - 1) with
          | (.error e, inner) => (.error (chunkReadFailure e), { reader with inner })
          | (.ok got, inner) =>
              if got = [] then
                (.error (.error (.prematureEof len filled.length)), { reader with inner })
              else readExactLoop len fuel (filled ++ got) { reader with inner }

/-- `read_exact_with_timeout`. -/
def readExact (reader : PrefixReader) (len : Nat) : Except ReadFailure Bytes × PrefixReader :=
  readExactLoop len len [] reader

/-- What is left of the prefix. -/
def pending (reader : PrefixReader) : Bytes :=
  if reader.prefixExhausted then [] else reader.prefixBytes

/-- What can be read before the first failure. -/
def input (reader : PrefixReader) : Bytes := reader.pending ++ reader.inner.available

theorem readInnerByte_cons (reader : PrefixReader) {b : UInt8} {rest : Bytes}
    (h : reader.inner.available = b :: rest) :
    ∃ inner, reader.readInnerByte = (.ok b, { reader with inner }) ∧ inner.available = rest := by
  obtain ⟨first, more, inner, hread, hmore, havailable⟩ :=
    Source.read_available (show reader.inner.available ≠ [] by simp [h]) 0
  obtain rfl : more = [] := List.length_eq_zero_iff.mp (Nat.le_zero.mp hmore)
  rw [h] at havailable
  obtain ⟨rfl, rfl⟩ := List.cons.inj havailable
  exact ⟨inner, by simp [readInnerByte, hread], rfl⟩

theorem readInnerByte_nil (reader : PrefixReader) (h : reader.inner.available = []) :
    ∃ e reader', reader.readInnerByte = (.error e, reader') := by
  unfold readInnerByte
  rcases Source.read_unavailable h 0 with hread | ⟨e, s, hread⟩
  · exact ⟨_, _, by rw [hread]; rfl⟩
  · exact ⟨_, _, by rw [hread]⟩

/-- A byte is the first of the input. -/
theorem readByte_cons {reader : PrefixReader} {b : UInt8} {rest : Bytes}
    (h : reader.input = b :: rest) :
    ∃ reader', reader.readByte = (.ok b, reader') ∧ reader'.input = rest := by
  unfold readByte
  unfold input pending at h
  split
  · next hexhausted =>
    simp only [hexhausted, if_true, List.nil_append] at h
    obtain ⟨inner, hread, hinner⟩ := readInnerByte_cons reader h
    exact ⟨_, hread, by simpa [input, pending, hexhausted] using hinner⟩
  · next hexhausted =>
    simp only [hexhausted, Bool.false_eq_true, if_false] at h
    cases hfront : reader.prefixBytes with
    | nil =>
      rw [hfront, List.nil_append] at h
      obtain ⟨inner, hread, hinner⟩ := readInnerByte_cons ⟨[], true, reader.inner⟩ h
      exact ⟨_, hread, by simpa [input, pending] using hinner⟩
    | cons b' more =>
      rw [hfront, List.cons_append] at h
      obtain ⟨rfl, hrest⟩ := List.cons.inj h
      exact ⟨_, rfl, by simpa [input, pending, hexhausted] using hrest⟩

theorem readByte_nil {reader : PrefixReader} (h : reader.input = []) :
    ∃ e reader', reader.readByte = (.error e, reader') := by
  unfold readByte
  obtain ⟨hfront, hinner⟩ := List.append_eq_nil_iff.mp h
  split
  · exact readInnerByte_nil _ hinner
  · next hexhausted =>
    simp only [pending, hexhausted, Bool.false_eq_true, if_false] at hfront
    rw [hfront]
    exact readInnerByte_nil _ hinner

/-- The prefix gives bytes of the input, and fewer than there is room for only
    where it ends. -/
theorem readPrefix_spec (reader : PrefixReader) (n : Nat) :
    (reader.readPrefix n).1 ++ (reader.readPrefix n).2.input = reader.input ∧
      (reader.readPrefix n).1.length ≤ n ∧
      ((reader.readPrefix n).1.length < n → (reader.readPrefix n).2.pending = []) := by
  unfold readPrefix
  split
  · next hexhausted => simp [input, pending, hexhausted]
  · next hexhausted =>
    simp only [input, pending, hexhausted, Bool.false_eq_true, if_false]
    refine ⟨?_, List.length_take_le _ _, ?_⟩
    · split
      · next hempty => simp [List.isEmpty_iff.mp hempty]
      · rw [← List.append_assoc, List.take_append_drop]
    · intro hlt
      have hdrop : reader.prefixBytes.drop n = [] := by
        rw [List.length_take] at hlt
        exact List.drop_eq_nil_of_le (by omega)
      simp [hdrop]

/-- An exact read takes the front of the input, if that is long enough. -/
theorem readExactLoop_spec {len : Nat} (fuel : Nat) (filled : Bytes) (reader : PrefixReader)
    (hfilled : filled.length ≤ len) (hfuel : len - filled.length ≤ fuel) :
    (len - filled.length ≤ reader.input.length →
      ∃ reader', readExactLoop len fuel filled reader =
          (.ok (filled ++ reader.input.take (len - filled.length)), reader') ∧
        reader'.input = reader.input.drop (len - filled.length)) ∧
    (reader.input.length < len - filled.length →
      ∃ e reader', readExactLoop len fuel filled reader = (.error e, reader')) := by
  induction fuel generalizing filled reader with
  | zero =>
    have hnone : len - filled.length = 0 := by omega
    simp [readExactLoop, hnone]
  | succ fuel ih =>
    unfold readExactLoop
    by_cases hfull : filled.length ≥ len
    · have hnone : len - filled.length = 0 := by omega
      simp [hfull, hnone]
    rw [if_neg hfull]
    obtain ⟨hinput, hroom, hdrained⟩ := reader.readPrefix_spec (len - filled.length)
    generalize reader.readPrefix (len - filled.length) = result at hinput hroom hdrained
    obtain ⟨got, reader₁⟩ := result
    simp only at hinput hroom hdrained ⊢
    rw [← hinput]
    by_cases hdone : (filled ++ got).length = len
    · rw [if_pos hdone]
      rw [List.length_append] at hdone
      have hgot : len - filled.length = got.length := by omega
      rw [hgot]
      exact ⟨fun _ => ⟨_, by rw [List.take_left], by rw [List.drop_left]⟩,
        fun h => by simp at h⟩
    rw [if_neg hdone]
    rw [List.length_append] at hdone
    have hpending : reader₁.pending = [] := hdrained (by omega)
    have hinner : reader₁.input = reader₁.inner.available := by
      rw [input, hpending, List.nil_append]
    rw [hinner, List.length_append]
    by_cases havailable : reader₁.inner.available = []
    -- nothing is left to read
    · rw [havailable]
      refine ⟨fun h => by simp at h; omega, fun _ => ?_⟩
      rcases Source.read_unavailable havailable (len - (filled ++ got).length - 1) with
        hread | ⟨e, s, hread⟩
      · exact ⟨_, _, by rw [hread]; rfl⟩
      · exact ⟨_, _, by rw [hread]⟩
    -- some more bytes, and the rest by induction
    · obtain ⟨first, more, inner, hread, hmore, hrest⟩ :=
        Source.read_available havailable (len - (filled ++ got).length - 1)
      rw [List.length_append] at hmore
      rw [hread]
      simp only [reduceCtorEq, if_false]
      have hinner' : ({ reader₁ with inner } : PrefixReader).input = inner.available := by
        show reader₁.pending ++ inner.available = inner.available
        rw [hpending, List.nil_append]
      have hnext := ih (filled ++ got ++ first :: more) { reader₁ with inner }
        (by simp; omega) (by simp; omega)
      have hneed : len - filled.length = (got ++ first :: more).length +
          (len - (filled ++ got ++ first :: more).length) := by
        simp
        omega
      rw [hinner'] at hnext
      rw [hrest, hneed]
      obtain ⟨hok, herror⟩ := hnext
      refine ⟨fun h => ?_, fun h => ?_⟩
      · obtain ⟨reader', hresult, hinput'⟩ := hok (by simp at h ⊢; omega)
        refine ⟨reader', ?_, ?_⟩
        · rw [hresult, ← List.append_assoc got, List.take_length_add_append]
          simp
        · rw [hinput', ← List.append_assoc got, List.drop_length_add_append]
      · exact herror (by simp at h ⊢; omega)

theorem readExact_of_le {reader : PrefixReader} {len : Nat} (h : len ≤ reader.input.length) :
    ∃ reader', reader.readExact len = (.ok (reader.input.take len), reader') ∧
      reader'.input = reader.input.drop len :=
  (readExactLoop_spec len [] reader (Nat.zero_le _) (Nat.le_refl _)).1 h

theorem readExact_of_lt {reader : PrefixReader} {len : Nat} (h : reader.input.length < len) :
    ∃ e reader', reader.readExact len = (.error e, reader') :=
  (readExactLoop_spec len [] reader (Nat.zero_le _) (Nat.le_refl _)).2 h

end PrefixReader

/-! ### The body -/

/-- `trim_end_matches("\r\n")` of a text that is given backwards. -/
def dropCrlf : Str → Str
  | '\n' :: '\r' :: rest => dropCrlf rest
  | s => s

/-- The text of the size: of the line without its end, up to the first semicolon. -/
def sizeText (line : Bytes) : Str :=
  trim ((dropCrlf (fromUtf8Lossy line).reverse).reverse.takeWhile (· ≠ ';'))

def chunkSize (line : Bytes) : Option Nat := parseHex usizeMax (sizeText line)

def isizeMax : Nat := 9223372036854775807

/-- `chunk_size + 2`, as release builds compute it. -/
def payloadAndCrlf (size : Nat) : Nat := (size + 2) % (usizeMax + 1)

structure ChunkLimits where
  maxBodyBytes : Nat
  maxTrailerBytes : Nat
  isUsize : maxBodyBytes ≤ usizeMax

section Loops

variable (limits : ChunkLimits)

/-- The loop that reads a size line, with room for as many bytes as are allowed
    for trailers. -/
def readLineLoop : Nat → Bytes → PrefixReader → Except ReadFailure Bytes × PrefixReader
  | room, line, reader =>
      if crlf <:+ line then (.ok line, reader)
      else
        match room with
        | 0 => (.error (.error (.trailerTooLarge limits.maxTrailerBytes line.length)), reader)
        | room + 1 =>
            match reader.readByte with
            | (.error e, reader) => (.error e, reader)
            | (.ok byte, reader) => readLineLoop room (line ++ [byte]) reader

/-- The loop over the trailer section. -/
def readTrailerLoop : Nat → Nat → Nat → Bytes → PrefixReader → Except ReadFailure Bytes
  | 0, trailerBytes, _, _, _ =>
      .error (.error (.trailerTooLarge limits.maxTrailerBytes trailerBytes))
  | fuel + 1, trailerBytes, totalWireBytes, output, reader =>
      match reader.readByte with
      | (.error e, _) => .error e
      | (.ok byte, reader) =>
          if trailerBytes + 1 > limits.maxTrailerBytes then
            .error (.error (.trailerTooLarge limits.maxTrailerBytes (trailerBytes + 1)))
          else if totalWireBytes + 1 > limits.maxBodyBytes then
            .error (.error (.bodyTooLarge limits.maxBodyBytes (totalWireBytes + 1)))
          else if headEnd <:+ output ++ [byte] then .ok (output ++ [byte])
          else readTrailerLoop fuel (trailerBytes + 1) (totalWireBytes + 1)
            (output ++ [byte]) reader

/-- The loop of `read_chunked_http_response_body`. Every round reads a line. -/
def readChunksLoop : Nat → Nat → Bytes → PrefixReader → Except ReadFailure Bytes
  | 0, totalWireBytes, _, _ => .error (.error (.bodyTooLarge limits.maxBodyBytes totalWireBytes))
  | fuel + 1, totalWireBytes, output, reader =>
      match readLineLoop limits limits.maxTrailerBytes [] reader with
      | (.error e, _) => .error e
      | (.ok line, reader) =>
          let totalWireBytes := totalWireBytes + line.length
          if totalWireBytes > limits.maxBodyBytes then
            .error (.error (.bodyTooLarge limits.maxBodyBytes totalWireBytes))
          else
            let output := output ++ line
            match chunkSize line with
            | none =>
                .error (.error (.malformedChunkedBody
                  ("invalid chunk size: ".toList ++ sizeText line)))
            | some size =>
                if size = 0 then
                  readTrailerLoop limits (limits.maxTrailerBytes + 1) 0 totalWireBytes output reader
                else if payloadAndCrlf size > isizeMax then .error .capacityOverflow
                else
                  match reader.readExact (payloadAndCrlf size) with
                  | (.error e, _) => .error e
                  | (.ok chunk, reader) =>
                      let totalWireBytes := totalWireBytes + chunk.length
                      if totalWireBytes > limits.maxBodyBytes then
                        .error (.error (.bodyTooLarge limits.maxBodyBytes totalWireBytes))
                      else readChunksLoop fuel totalWireBytes (output ++ chunk) reader

end Loops

def readChunkedHttpResponseBody (source : Source) (prefixBytes : Bytes) (limits : ChunkLimits) :
    Except ReadFailure Bytes :=
  readChunksLoop limits (limits.maxBodyBytes + 1) 0 [] (.new prefixBytes source)

/-! ### What the reader takes -/

/-- A size line and what is read behind it. -/
structure WireChunk where
  line : Bytes
  payload : Bytes

def WireChunk.bytes (chunk : WireChunk) : Bytes := chunk.line ++ chunk.payload

/-- Chunks, the line of the last chunk and what is read behind it. -/
structure WireBody where
  chunks : List WireChunk
  lastLine : Bytes
  trailer : Bytes

def WireBody.bytes (body : WireBody) : Bytes :=
  body.chunks.flatMap WireChunk.bytes ++ (body.lastLine ++ body.trailer)

/-- A line of the size `n`, as the reader sees it. -/
structure LineRead (limits : ChunkLimits) (n : Nat) (line : Bytes) : Prop where
  ends : EndsFirst crlf line
  short : line.length ≤ limits.maxTrailerBytes
  size : chunkSize line = some n

structure WireChunk.Read (limits : ChunkLimits) (chunk : WireChunk) : Prop where
  line : ∃ n, LineRead limits n chunk.line ∧ n ≠ 0 ∧ chunk.payload.length = payloadAndCrlf n
  capacity : chunk.payload.length ≤ isizeMax

structure WireBody.Read (limits : ChunkLimits) (body : WireBody) : Prop where
  chunks : ∀ chunk ∈ body.chunks, chunk.Read limits
  lastLine : LineRead limits 0 body.lastLine
  trailer : EndsFirst headEnd (crlf ++ body.trailer)
  short : body.trailer.length ≤ limits.maxTrailerBytes

/-- The input begins with a body as the reader delimits it, within the limits. -/
structure WireBody.Found (limits : ChunkLimits) (input : Bytes) (body : WireBody) : Prop where
  read : body.Read limits
  total : body.bytes.length ≤ limits.maxBodyBytes
  front : body.bytes <+: input

/-! ### Lines -/

theorem readLineLoop_ok {limits : ChunkLimits} {room : Nat} {line l : Bytes}
    {reader reader' : PrefixReader} (hfirst : ∀ p, p <+: line → crlf <:+ p → p = line)
    (h : readLineLoop limits room line reader = (.ok l, reader')) :
    ∃ more, l = line ++ more ∧ reader.input = more ++ reader'.input ∧ EndsFirst crlf l ∧
      more.length ≤ room := by
  induction room generalizing line reader with
  | zero =>
    unfold readLineLoop at h
    split at h
    · next hends =>
      obtain ⟨rfl, rfl⟩ : line = l ∧ reader = reader' := by simpa using h
      exact ⟨[], by simp, by simp, ⟨hends, hfirst⟩, Nat.le_refl _⟩
    · simp at h
  | succ room ih =>
    unfold readLineLoop at h
    split at h
    · next hends =>
      obtain ⟨rfl, rfl⟩ : line = l ∧ reader = reader' := by simpa using h
      exact ⟨[], by simp, by simp, ⟨hends, hfirst⟩, Nat.zero_le _⟩
    · next hnot =>
      cases hinput : reader.input with
      | nil =>
        obtain ⟨e, reader₁, hread⟩ := PrefixReader.readByte_nil hinput
        simp [hread] at h
      | cons b rest =>
        obtain ⟨reader₁, hread, hrest⟩ := PrefixReader.readByte_cons hinput
        simp only [hread] at h
        have hfirst' : ∀ p, p <+: line ++ [b] → crlf <:+ p → p = line ++ [b] := by
          intro p hp hends
          rcases List.prefix_concat_iff.mp hp with rfl | hp
          · rfl
          · exact absurd (hfirst p hp hends ▸ hends) hnot
        obtain ⟨more, hl, hmore, hends, hroom⟩ := ih hfirst' h
        refine ⟨b :: more, by simp [hl], by simp [← hrest, hmore], hends, by simpa using hroom⟩

theorem readLineLoop_of_ends (limits : ChunkLimits) {room : Nat} (line : Bytes) {more rest : Bytes}
    {reader : PrefixReader} (hends : EndsFirst crlf (line ++ more))
    (hinput : reader.input = more ++ rest) (hroom : more.length ≤ room) :
    ∃ reader', readLineLoop limits room line reader = (.ok (line ++ more), reader') ∧
      reader'.input = rest := by
  induction room generalizing line more reader with
  | zero =>
    obtain rfl : more = [] := List.length_eq_zero_iff.mp (Nat.le_zero.mp hroom)
    unfold readLineLoop
    rw [List.append_nil] at hends ⊢
    exact ⟨reader, by rw [if_pos hends.suffix], hinput⟩
  | succ room ih =>
    unfold readLineLoop
    split
    · next hline =>
      have hall := hends.first line (List.prefix_append _ _) hline
      obtain rfl : more = [] := by simpa using hall.symm
      exact ⟨reader, by simp, hinput⟩
    · next hline =>
      cases more with
      | nil =>
        rw [List.append_nil] at hends
        exact absurd hends.suffix hline
      | cons b more =>
        obtain ⟨reader₁, hread, hrest⟩ := PrefixReader.readByte_cons hinput
        rw [hread]
        rw [List.append_cons] at hends ⊢
        exact ih _ hends hrest (Nat.le_of_succ_le_succ hroom)

/-! ### Trailers -/

/-- Behind the end of a line, an empty line is seen as soon as it is there. -/
theorem headEnd_suffix_iff {o t : Bytes} (ht : t ≠ []) :
    headEnd <:+ o ++ crlf ++ t ↔ headEnd <:+ crlf ++ t := by
  rw [List.append_assoc]
  refine ⟨fun h => ?_, fun h => h.trans (List.suffix_append _ _)⟩
  match t, ht with
  | [b], _ =>
    have hshort : crlf ++ [b] <:+ headEnd :=
      List.suffix_of_suffix_length_le (List.suffix_append _ _) h (by simp [crlf, headEnd])
    have hdrop := List.suffix_iff_eq_drop.mp hshort
    simp [crlf, headEnd] at hdrop
  | b :: c :: t, _ =>
    exact List.suffix_of_suffix_length_le h (List.suffix_append _ _) (by simp [crlf, headEnd])

/-- The bytes that the trailer loop takes behind `output`. -/
structure TrailerRead (output t : Bytes) : Prop where
  ne : t ≠ []
  ends : headEnd <:+ output ++ t
  first : ∀ p, p ≠ [] → p <+: t → headEnd <:+ output ++ p → p = t

theorem trailerRead_iff {output t : Bytes} (h : crlf <:+ output) :
    TrailerRead output t ↔ EndsFirst headEnd (crlf ++ t) := by
  obtain ⟨o, rfl⟩ := h
  refine ⟨fun hread => ⟨(headEnd_suffix_iff hread.ne).mp hread.ends, ?_⟩, fun hends => ?_⟩
  · intro p hp hsuffix
    obtain ⟨q, rfl, hq⟩ : ∃ q, p = crlf ++ q ∧ q <+: t := by
      have hle : crlf.length ≤ p.length := by
        have := hsuffix.length_le
        simp [headEnd] at this
        simp [crlf]
        omega
      obtain ⟨q, rfl⟩ := List.prefix_of_prefix_length_le (List.prefix_append crlf t) hp hle
      exact ⟨q, rfl, (List.prefix_append_right_inj _).mp hp⟩
    have hne : q ≠ [] := by
      rintro rfl
      exact absurd hsuffix.length_le (by decide)
    rw [hread.first q hne hq ((headEnd_suffix_iff hne).mpr hsuffix)]
  · have hne : t ≠ [] := by
      rintro rfl
      exact absurd hends.suffix.length_le (by decide)
    refine ⟨hne, (headEnd_suffix_iff hne).mpr hends.suffix, ?_⟩
    intro p hpne hp hsuffix
    have hall := hends.first (crlf ++ p) ((List.prefix_append_right_inj _).mpr hp)
      ((headEnd_suffix_iff hpne).mp hsuffix)
    exact List.append_cancel_left hall

theorem readTrailerLoop_ok {limits : ChunkLimits} {fuel trailerBytes total : Nat}
    {output out : Bytes} {reader : PrefixReader}
    (h : readTrailerLoop limits fuel trailerBytes total output reader = .ok out) :
    ∃ t, out = output ++ t ∧ t <+: reader.input ∧ TrailerRead output t ∧
      trailerBytes + t.length ≤ limits.maxTrailerBytes ∧
      total + t.length ≤ limits.maxBodyBytes := by
  induction fuel generalizing trailerBytes total output reader with
  | zero => simp [readTrailerLoop] at h
  | succ fuel ih =>
    unfold readTrailerLoop at h
    cases hinput : reader.input with
    | nil =>
      obtain ⟨e, reader₁, hread⟩ := PrefixReader.readByte_nil hinput
      simp [hread] at h
    | cons b rest =>
      obtain ⟨reader₁, hread, hrest⟩ := PrefixReader.readByte_cons hinput
      simp only [hread] at h
      split_ifs at h with htrailer hbody hends
      · obtain rfl := Except.ok.inj h
        refine ⟨[b], rfl, List.prefix_append [b] rest, ⟨by simp, hends, ?_⟩,
          by simpa using htrailer,
          by simpa using hbody⟩
        intro p hne hp _
        exact hp.eq_of_length_le (List.length_pos_iff.mpr hne)
      · obtain ⟨t, hout, hfront, hread', htrailer', hbody'⟩ := ih h
        refine ⟨b :: t, by simp [hout], ?_, ⟨by simp, ?_, ?_⟩, ?_, ?_⟩
        · rw [← hrest]
          exact (List.prefix_append_right_inj [b]).mpr hfront
        · simpa using hread'.ends
        · intro p hne hp hsuffix
          cases p with
          | nil => exact absurd rfl hne
          | cons b' q =>
            obtain ⟨rfl, hq⟩ := List.cons_prefix_cons.mp hp
            have hq' : q ≠ [] := by
              rintro rfl
              exact hends hsuffix
            rw [hread'.first q hq' hq (by simpa using hsuffix)]
        · rw [List.length_cons]
          omega
        · rw [List.length_cons]
          omega

theorem readTrailerLoop_of_read {limits : ChunkLimits} {fuel trailerBytes total : Nat}
    {output t : Bytes} {reader : PrefixReader} (hread : TrailerRead output t)
    (hfront : t <+: reader.input) (hfuel : t.length ≤ fuel)
    (htrailer : trailerBytes + t.length ≤ limits.maxTrailerBytes)
    (hbody : total + t.length ≤ limits.maxBodyBytes) :
    readTrailerLoop limits fuel trailerBytes total output reader = .ok (output ++ t) := by
  induction fuel generalizing trailerBytes total output reader t with
  | zero => exact absurd (List.length_eq_zero_iff.mp (Nat.le_zero.mp hfuel)) hread.ne
  | succ fuel ih =>
    cases t with
    | nil => exact absurd rfl hread.ne
    | cons b t =>
      rw [List.length_cons] at hfuel htrailer hbody
      obtain ⟨rest, hrest⟩ := hfront
      obtain ⟨reader₁, hbyte, hinput⟩ := PrefixReader.readByte_cons hrest.symm
      unfold readTrailerLoop
      rw [hbyte]
      simp only
      rw [if_neg (by omega), if_neg (by omega)]
      split
      · next hends =>
        have hall := hread.first [b] (by simp) (List.prefix_append [b] t) hends
        rw [← hall]
      · next hnot =>
        have hne : t ≠ [] := by
          rintro rfl
          exact hnot hread.ends
        have hread' : TrailerRead (output ++ [b]) t := by
          refine ⟨hne, by simpa using hread.ends, ?_⟩
          intro p hpne hp hsuffix
          have hall := hread.first (b :: p) (by simp) ((List.prefix_append_right_inj [b]).mpr hp)
            (by simpa using hsuffix)
          exact (List.cons.inj hall).2
        rw [ih hread' ⟨rest, hinput.symm⟩ (by omega) (by omega) (by omega)]
        simp

/-! ### Bodies -/

theorem readChunksLoop_ok {limits : ChunkLimits} {fuel total : Nat} {output out : Bytes}
    {reader : PrefixReader} (h : readChunksLoop limits fuel total output reader = .ok out) :
    ∃ body : WireBody, body.Read limits ∧ out = output ++ body.bytes ∧
      body.bytes <+: reader.input ∧ total + body.bytes.length ≤ limits.maxBodyBytes := by
  induction fuel generalizing total output reader with
  | zero => simp [readChunksLoop] at h
  | succ fuel ih =>
    unfold readChunksLoop at h
    generalize hresult : readLineLoop limits limits.maxTrailerBytes [] reader = result at h
    obtain ⟨lineResult, reader₁⟩ := result
    cases lineResult with
    | error e => simp at h
    | ok line =>
      have hnone : ∀ p : Bytes, p <+: [] → crlf <:+ p → p = [] :=
        fun p hp _ => List.prefix_nil.mp hp
      obtain ⟨_, rfl, hinput, hends, hshort⟩ := readLineLoop_ok hnone hresult
      simp only at h
      rw [hinput]
      split at h
      · cases h
      · next htotal =>
        cases hsize : chunkSize line with
        | none => simp [hsize] at h
        | some size =>
          have hline : LineRead limits size line := ⟨hends, hshort, hsize⟩
          simp only [hsize] at h
          split_ifs at h with hzero hcapacity
          -- the last chunk
          · subst hzero
            obtain ⟨t, rfl, hfront, hread, htrailer, hbody⟩ := readTrailerLoop_ok h
            have htrailer' :=
              (trailerRead_iff (hends.suffix.trans (List.suffix_append _ _))).mp hread
            refine ⟨⟨[], line, t⟩, ⟨by simp, hline, htrailer', by simpa using htrailer⟩, ?_, ?_, ?_⟩
            · simp [WireBody.bytes]
            · simpa [WireBody.bytes] using hfront
            · simp [WireBody.bytes]
              omega
          -- a chunk and its data
          · by_cases havailable : payloadAndCrlf size ≤ reader₁.input.length
            · obtain ⟨reader₂, hexact, hinput₂⟩ := PrefixReader.readExact_of_le havailable
              simp only [hexact] at h
              split_ifs at h with hbody
              obtain ⟨body, hread, rfl, hfront, hbodyTotal⟩ := ih h
              have hlength : (reader₁.input.take (payloadAndCrlf size)).length =
                  payloadAndCrlf size := List.length_take_of_le havailable
              refine ⟨⟨⟨line, reader₁.input.take (payloadAndCrlf size)⟩ :: body.chunks,
                body.lastLine, body.trailer⟩, ⟨?_, hread.lastLine, hread.trailer, hread.short⟩,
                ?_, ?_, ?_⟩
              · intro chunk hchunk
                rcases List.mem_cons.mp hchunk with rfl | hchunk
                · exact ⟨⟨size, hline, hzero, hlength⟩, by rw [hlength]; omega⟩
                · exact hread.chunks chunk hchunk
              · simp [WireBody.bytes, WireChunk.bytes]
              · rw [hinput₂] at hfront
                have hwhole := (List.prefix_append_right_inj
                  (line ++ reader₁.input.take (payloadAndCrlf size))).mpr hfront
                rw [List.append_assoc line, List.append_assoc line, List.take_append_drop] at hwhole
                simpa [WireBody.bytes, WireChunk.bytes] using hwhole
              · simp only [WireBody.bytes, List.flatMap_cons, WireChunk.bytes,
                  List.length_append] at hbodyTotal ⊢
                omega
            · obtain ⟨e, reader₂, hexact⟩ := PrefixReader.readExact_of_lt (Nat.not_le.mp havailable)
              simp [hexact] at h

theorem readChunksLoop_of_read {limits : ChunkLimits} {fuel total : Nat} {output : Bytes}
    {reader : PrefixReader} {chunks : List WireChunk} {lastLine trailer : Bytes}
    (hread : WireBody.Read limits ⟨chunks, lastLine, trailer⟩)
    (hfront : WireBody.bytes ⟨chunks, lastLine, trailer⟩ <+: reader.input)
    (htotal : total + (WireBody.bytes ⟨chunks, lastLine, trailer⟩).length ≤ limits.maxBodyBytes)
    (hfuel : chunks.length < fuel) :
    readChunksLoop limits fuel total output reader =
      .ok (output ++ WireBody.bytes ⟨chunks, lastLine, trailer⟩) := by
  induction chunks generalizing fuel total output reader with
  | nil =>
    obtain ⟨fuel, rfl⟩ : ∃ k, fuel = k + 1 := ⟨fuel - 1, by omega⟩
    have htrailer := hread.trailer
    have hshort := hread.short
    have hline := hread.lastLine
    simp only [WireBody.bytes, List.flatMap_nil, List.nil_append, List.length_append]
      at hfront htotal hline htrailer hshort ⊢
    obtain ⟨rest, hrest⟩ := hfront
    obtain ⟨reader₁, hresult, hinput⟩ := readLineLoop_of_ends limits [] hline.ends
      (hrest.symm.trans (List.append_assoc _ _ _)) hline.short
    unfold readChunksLoop
    rw [hresult]
    simp only [List.nil_append]
    rw [if_neg (by omega), hline.size]
    simp only [if_true]
    have hread' := (trailerRead_iff (hline.ends.suffix.trans (List.suffix_append output _))).mpr
      htrailer
    rw [readTrailerLoop_of_read hread' ⟨rest, hinput.symm⟩ (by omega) (by omega) (by omega)]
    simp
  | cons chunk chunks ih =>
    obtain ⟨fuel, rfl⟩ : ∃ k, fuel = k + 1 := ⟨fuel - 1, by omega⟩
    obtain ⟨line, payload⟩ := chunk
    obtain ⟨⟨size, hline, hsize, hpayload⟩, hcapacity⟩ := hread.chunks _ (List.mem_cons_self ..)
    simp only at hline hpayload hcapacity
    have hbytes : WireBody.bytes ⟨⟨line, payload⟩ :: chunks, lastLine, trailer⟩ =
        line ++ (payload ++ WireBody.bytes ⟨chunks, lastLine, trailer⟩) := by
      simp [WireBody.bytes, WireChunk.bytes]
    rw [hbytes] at hfront htotal ⊢
    simp only [List.length_append] at htotal
    obtain ⟨rest, hrest⟩ := hfront
    obtain ⟨reader₁, hresult, hinput⟩ := readLineLoop_of_ends limits [] hline.ends
      (hrest.symm.trans (List.append_assoc _ _ _)) hline.short
    unfold readChunksLoop
    rw [hresult]
    simp only [List.nil_append]
    rw [if_neg (by omega), hline.size]
    simp only
    rw [if_neg hsize, if_neg (by omega)]
    rw [List.append_assoc] at hinput
    have hlong : payloadAndCrlf size ≤ reader₁.input.length := by
      rw [hinput, List.length_append]
      omega
    obtain ⟨reader₂, hexact, hinput₂⟩ := PrefixReader.readExact_of_le hlong
    rw [hinput, ← hpayload, List.take_left] at hexact
    rw [hinput, ← hpayload, List.drop_left] at hinput₂
    rw [← hpayload, hexact]
    simp only
    rw [if_neg (by omega)]
    have hread' : WireBody.Read limits ⟨chunks, lastLine, trailer⟩ :=
      ⟨fun c hc => hread.chunks c (List.mem_cons_of_mem _ hc), hread.lastLine, hread.trailer,
        hread.short⟩
    rw [ih hread' ⟨rest, hinput₂.symm⟩ (by omega) (by simpa using hfuel)]
    simp

/-! ### The size of a line of the grammar -/

/-- Line ends are taken off only behind what is not one. -/
theorem dropCrlf_append (front : Str) {c : Char} (hc : c ≠ '\n' ∧ c ≠ '\r') (back : Str) :
    ∃ front', dropCrlf (front ++ c :: back) = front' ++ c :: back := by
  induction front using dropCrlf.induct with
  | case1 rest ih =>
    obtain ⟨front', h⟩ := ih
    exact ⟨front', by simpa [dropCrlf] using h⟩
  | case2 s hs =>
    refine ⟨s, ?_⟩
    unfold dropCrlf
    split
    · next rest heq =>
      match s, heq with
      | [], heq => simp at heq; exact absurd heq.1 hc.1
      | [x], heq => simp at heq; exact absurd heq.2.1 hc.2
      | x :: y :: s, heq =>
        simp at heq
        exact absurd (by rw [heq.1, heq.2.1]) (hs s)
    · rfl

theorem dropCrlf_of_ne {c : Char} (h : c ≠ '\n') (s : Str) : dropCrlf (c :: s) = c :: s := by
  unfold dropCrlf
  split
  · next heq => exact absurd (List.cons.inj heq).1 h
  · rfl

/-- A size line of the grammar is read as its digits. -/
theorem sizeText_of_sizeLine {digits ext : Bytes} (hne : digits ≠ [])
    (hdigits : (asciiChars digits).all (fun c => (hexDigit c).isSome) = true)
    (hext : ChunkExt ext) :
    sizeText (digits ++ ext ++ crlf) = asciiChars digits := by
  have hne' : asciiChars digits ≠ [] := by simpa [asciiChars] using hne
  have hascii := ascii_of_hexDigits hdigits
  have hdigit := List.all_eq_true.mp hdigits
  have hwhite : ∀ c ∈ asciiChars digits, isWhitespace c = false :=
    fun c hc => isWhitespace_of_hexDigit (hdigit c hc)
  have hsemicolon : ∀ c ∈ asciiChars digits, c ≠ ';' := by
    rintro c hc rfl
    have hrange := toNat_of_hexDigit (hdigit _ hc)
    simp at hrange
  unfold sizeText
  rcases hext.begins with rfl | ⟨bws, rest, hbws, rfl⟩
  -- digits up to the end of the line
  · have htext : fromUtf8Lossy (digits ++ [] ++ crlf) = asciiChars digits ++ ['\r', '\n'] := by
      rw [List.append_nil, fromUtf8Lossy_ascii_append hascii]
      rfl
    have hlast : dropCrlf (asciiChars digits).reverse = (asciiChars digits).reverse := by
      cases hrev : (asciiChars digits).reverse with
      | nil => rfl
      | cons c back =>
        have hc : c ∈ asciiChars digits := by
          rw [← List.mem_reverse, hrev]
          simp
        refine dropCrlf_of_ne ?_ back
        rintro rfl
        exact absurd (hwhite _ hc) (by decide)
    have hall : (asciiChars digits).takeWhile (· ≠ ';') = asciiChars digits :=
      List.takeWhile_eq_self_iff.mpr (by simpa using hsemicolon)
    rw [htext, List.reverse_append]
    simp only [List.reverse_cons, List.reverse_nil, List.nil_append, List.cons_append, dropCrlf,
      hlast, List.reverse_reverse, hall]
    exact trim_of_none hwhite
  -- digits, blanks and a semicolon
  · have hblanks := hbws.isWhitespace
    have htext : fromUtf8Lossy (digits ++ (bws ++ 59 :: rest) ++ crlf) =
        asciiChars digits ++ asciiChars bws ++ ';' :: fromUtf8Lossy (rest ++ crlf) := by
      simp only [List.append_assoc, List.cons_append]
      rw [fromUtf8Lossy_ascii_append hascii, fromUtf8Lossy_ascii_append hbws.ascii]
      exact congrArg _ (congrArg _ (fromUtf8Lossy_append (b := 59) (by decide) [] _))
    obtain ⟨tail, htail⟩ := dropCrlf_append (fromUtf8Lossy (rest ++ crlf)).reverse
      (c := ';') (by decide) (asciiChars digits ++ asciiChars bws).reverse
    have hrev :
        (asciiChars digits ++ asciiChars bws ++ ';' :: fromUtf8Lossy (rest ++ crlf)).reverse =
        (fromUtf8Lossy (rest ++ crlf)).reverse ++
          ';' :: (asciiChars digits ++ asciiChars bws).reverse := by
      simp
    have hfront : ∀ c ∈ asciiChars digits ++ asciiChars bws, decide (c ≠ ';') = true := by
      intro c hc
      rcases List.mem_append.mp hc with hc | hc
      · simpa using hsemicolon c hc
      · simpa using (hblanks c hc).2
    rw [htext, hrev, htail, List.reverse_append, List.reverse_cons, List.reverse_reverse,
      List.append_assoc _ [';'], List.takeWhile_append_of_pos hfront]
    simp only [List.cons_append, List.nil_append, ne_eq, not_true_eq_false, decide_false,
      List.takeWhile_cons, Bool.false_eq_true, if_false, List.append_nil]
    rw [trim_append fun c hc => (hblanks c hc).1, trim_of_none hwhite]

theorem chunkSize_of_sizeLine {n : Nat} {line : Bytes} (h : SizeLine n line) :
    chunkSize line = if n ≤ usizeMax then some n else none := by
  obtain ⟨digits, ext, hne, hdigits, rfl, hext, rfl⟩ := h
  rw [chunkSize, sizeText_of_sizeLine hne hdigits hext]
  exact parseHex_digits (by simpa [asciiChars] using hne) hdigits

/-! ### Well-formed bodies -/

/-- The size is digits, maybe with an extension, two more bytes can be counted,
    and these end the chunk. -/
structure WireChunk.WellFormed (chunk : WireChunk) : Prop where
  line : ∃ n, SizeLine n chunk.line ∧ n + 2 ≤ usizeMax
  ends : crlf <:+ chunk.payload

structure WireBody.WellFormed (body : WireBody) : Prop where
  chunks : ∀ chunk ∈ body.chunks, chunk.WellFormed
  lastLine : ∃ n, SizeLine n body.lastLine
  trailer : Trailer body.trailer

/-- The line of a body of the grammar is the one that the reader takes. -/
theorem sizeLine_eq_of_read {limits : ChunkLimits} {m n : Nat} {line line' rest rest' : Bytes}
    (h : SizeLine m line') (hread : LineRead limits n line) (heq : line' ++ rest' = line ++ rest) :
    line' = line ∧ m = n ∧ rest' = rest := by
  obtain rfl : line' = line := h.endsFirst.unique hread.ends (List.prefix_append line' rest')
    (heq ▸ List.prefix_append line rest)
  have hsize := hread.size
  rw [chunkSize_of_sizeLine h] at hsize
  split at hsize
  · exact ⟨rfl, Option.some.inj hsize, List.append_cancel_left heq⟩
  · cases hsize

/-- **What the reader takes is a chunked body if its parts are well-formed**, and
    only then. -/
theorem chunkedBody_iff {limits : ChunkLimits} {chunks : List WireChunk} {lastLine trailer : Bytes}
    (hread : WireBody.Read limits ⟨chunks, lastLine, trailer⟩)
    (hlength : (WireBody.bytes ⟨chunks, lastLine, trailer⟩).length ≤ usizeMax) :
    ChunkedBody (WireBody.bytes ⟨chunks, lastLine, trailer⟩) ↔
      WireBody.WellFormed ⟨chunks, lastLine, trailer⟩ := by
  induction chunks with
  | nil =>
    have hline : LineRead limits 0 lastLine := hread.lastLine
    have hbytes : WireBody.bytes ⟨[], lastLine, trailer⟩ = lastLine ++ trailer := by
      simp [WireBody.bytes]
    rw [hbytes]
    refine ⟨fun h => ?_, fun h => ?_⟩
    · generalize hwhole : lastLine ++ trailer = whole at h
      cases h with
      | last hsize htrailer =>
        obtain ⟨rfl, -, rfl⟩ := sizeLine_eq_of_read hsize hline hwhole.symm
        exact ⟨by simp, ⟨0, hsize⟩, htrailer⟩
      | chunk hsize hne hrest =>
        rw [List.append_assoc] at hwhole
        obtain ⟨-, hzero, -⟩ := sizeLine_eq_of_read hsize hline hwhole.symm
        exact absurd (List.length_eq_zero_iff.mp hzero) hne
    · obtain ⟨n, hsize⟩ := h.lastLine
      have hsize' : chunkSize lastLine = some 0 := hline.size
      rw [chunkSize_of_sizeLine hsize] at hsize'
      split at hsize'
      · obtain rfl := Option.some.inj hsize'
        exact .last hsize h.trailer
      · cases hsize'
  | cons chunk chunks ih =>
    obtain ⟨line, payload⟩ := chunk
    have hbytes : WireBody.bytes ⟨⟨line, payload⟩ :: chunks, lastLine, trailer⟩ =
        line ++ (payload ++ WireBody.bytes ⟨chunks, lastLine, trailer⟩) := by
      simp [WireBody.bytes, WireChunk.bytes]
    obtain ⟨⟨size, hline, hsize, hpayload⟩, -⟩ := hread.chunks _ (List.mem_cons_self ..)
    simp only at hline hpayload
    have hread' : WireBody.Read limits ⟨chunks, lastLine, trailer⟩ :=
      ⟨fun c hc => hread.chunks c (List.mem_cons_of_mem _ hc), hread.lastLine, hread.trailer,
        hread.short⟩
    rw [hbytes] at hlength ⊢
    simp only [List.length_append] at hlength
    have ih := ih hread' (by omega)
    refine ⟨fun h => ?_, fun h => ?_⟩
    · generalize hwhole : line ++ (payload ++ WireBody.bytes ⟨chunks, lastLine, trailer⟩) =
        whole at h
      cases h with
      | last hline' _ =>
        obtain ⟨-, hzero, -⟩ := sizeLine_eq_of_read hline' hline hwhole.symm
        exact absurd hzero.symm hsize
      | @chunk line' data rest hline' hne hrest =>
        have hlength' := congrArg List.length hwhole
        rw [List.append_assoc] at hwhole hlength'
        obtain ⟨rfl, rfl, hdata⟩ := sizeLine_eq_of_read hline' hline hwhole.symm
        have hcount : data.length + 2 ≤ usizeMax := by
          simp [crlf] at hlength'
          omega
        have hpayload' : payload.length = (data ++ crlf).length := by
          rw [hpayload, payloadAndCrlf, Nat.mod_eq_of_lt (Nat.lt_succ_of_le hcount)]
          simp [crlf]
        obtain ⟨rfl, rfl⟩ := List.append_inj hdata hpayload'.symm
        have hwell := ih.mp hrest
        refine ⟨?_, hwell.lastLine, hwell.trailer⟩
        intro c hc
        rcases List.mem_cons.mp hc with rfl | hc
        · exact ⟨⟨data.length, hline', hcount⟩, List.suffix_append _ _⟩
        · exact hwell.chunks c hc
    · have hrest :=
        ih.mpr ⟨fun c hc => h.chunks c (List.mem_cons_of_mem _ hc), h.lastLine, h.trailer⟩
      obtain ⟨⟨n, hline', hcount⟩, ⟨data, hdata⟩⟩ := h.chunks _ (List.mem_cons_self ..)
      simp only at hline' hdata
      obtain ⟨-, rfl, -⟩ := sizeLine_eq_of_read hline' hline (rfl : line ++ [] = line ++ [])
      subst hdata
      have hlength' : data.length = n := by
        rw [payloadAndCrlf, Nat.mod_eq_of_lt (Nat.lt_succ_of_le hcount)] at hpayload
        simpa [crlf] using hpayload
      subst hlength'
      rw [← List.append_assoc]
      exact .chunk hline' (by simpa using hsize) hrest

/-! ### The relay -/

/-- Every chunk has a line. -/
theorem length_chunks_le {limits : ChunkLimits} {chunks : List WireChunk} {lastLine trailer : Bytes}
    (h : WireBody.Read limits ⟨chunks, lastLine, trailer⟩) :
    chunks.length ≤ (WireBody.bytes ⟨chunks, lastLine, trailer⟩).length := by
  induction chunks with
  | nil => exact Nat.zero_le _
  | cons chunk chunks ih =>
    obtain ⟨⟨size, hline, -, -⟩, -⟩ := h.chunks _ (List.mem_cons_self ..)
    have hends := hline.ends.suffix.length_le
    have ih :=
      ih ⟨fun c hc => h.chunks c (List.mem_cons_of_mem _ hc), h.lastLine, h.trailer, h.short⟩
    simp only [WireBody.bytes, WireChunk.bytes, List.flatMap_cons, List.length_append,
      List.length_cons, crlf, List.length_nil] at hends ih ⊢
    omega

theorem readChunked_ok_iff {source : Source} {prefixBytes : Bytes} {limits : ChunkLimits}
    {out : Bytes} :
    readChunkedHttpResponseBody source prefixBytes limits = .ok out ↔
      ∃ body : WireBody, body.Found limits (prefixBytes ++ source.available) ∧
      out = body.bytes := by
  have hinput : (PrefixReader.new prefixBytes source).input = prefixBytes ++ source.available := by
    simp [PrefixReader.new, PrefixReader.input, PrefixReader.pending]
  unfold readChunkedHttpResponseBody
  refine ⟨fun h => ?_, ?_⟩
  · obtain ⟨body, hread, rfl, hfront, htotal⟩ := readChunksLoop_ok h
    rw [hinput] at hfront
    exact ⟨body, ⟨hread, by simpa using htotal, hfront⟩, by simp⟩
  · rintro ⟨⟨chunks, lastLine, trailer⟩, ⟨hread, htotal, hfront⟩, rfl⟩
    have hchunks := length_chunks_le hread
    rw [readChunksLoop_of_read hread (hinput ▸ hfront) (by simpa using htotal) (by omega)]
    rfl

/-- **Chunked bodies are relayed only if well-formed** exactly where the body that
    the input begins with, as the reader delimits it, has well-formed parts. -/
theorem relayed_iff_wellFormed (source : Source) (prefixBytes : Bytes) (limits : ChunkLimits) :
    (∀ out, readChunkedHttpResponseBody source prefixBytes limits = .ok out →
      out <+: prefixBytes ++ source.bytes ∧ ChunkedBody out) ↔
    ∀ body : WireBody, body.Found limits (prefixBytes ++ source.available) → body.WellFormed := by
  refine ⟨fun h body hfound => ?_, fun h out hout => ?_⟩
  · have hout := readChunked_ok_iff.mpr ⟨body, hfound, rfl⟩
    exact (chunkedBody_iff hfound.read (hfound.total.trans limits.isUsize)).mp (h _ hout).2
  · obtain ⟨body, hfound, rfl⟩ := readChunked_ok_iff.mp hout
    refine ⟨hfound.front.trans ((List.prefix_append_right_inj _).mpr source.available_prefix), ?_⟩
    exact (chunkedBody_iff hfound.read (hfound.total.trans limits.isUsize)).mpr (h body hfound)

/-- `5 CRLF hello`, then two other bytes in place of the line end, and a last
    chunk. -/
private def unendedChunk : WireBody where
  chunks := [⟨[53, 13, 10], [104, 101, 108, 108, 111, 88, 88]⟩]
  lastLine := [48, 13, 10]
  trailer := [13, 10]

private def someLimits : ChunkLimits := ⟨1000, 100, by decide⟩

private theorem unendedChunk_read : unendedChunk.Read someLimits where
  chunks := by
    intro chunk hchunk
    obtain rfl := List.mem_singleton.mp hchunk
    exact ⟨⟨5, ⟨endsFirst_crlf [53] (by decide), by decide, by decide⟩, by decide, by decide⟩,
      by decide⟩
  lastLine := ⟨endsFirst_crlf [48] (by decide), by decide, by decide⟩
  trailer := (position_some (by decide) (show position headEnd headEnd = some 0 by decide)).1
  short := by decide

/-- The end of a chunk's data is not looked at. -/
theorem unended_chunk_relayed :
    ¬ (∀ (source : Source) (prefixBytes : Bytes) (limits : ChunkLimits) (out : Bytes),
      readChunkedHttpResponseBody source prefixBytes limits = .ok out →
      out <+: prefixBytes ++ source.bytes ∧ ChunkedBody out) := by
  intro h
  have hbody := (h [] unendedChunk.bytes someLimits unendedChunk.bytes (by decide)).2
  have hwell := (chunkedBody_iff unendedChunk_read (by decide)).mp hbody
  exact absurd (hwell.chunks _ (List.mem_singleton.mpr rfl)).ends (by decide)

example : readChunkedHttpResponseBody [.data 43 [53], .data 13 [10, 104, 101, 108]]
    [] someLimits = .error (.error (.prematureEof 7 3)) := by decide

end Synvoid.Mesh
