import Synvoid.Framework.Slice

/-! # The streaming body scanner

    Model of `StreamingWafCore`
    (`synvoid-waf/src/attack_detection/streaming.rs`). A request body arrives
    in chunks; every chunk is handed to the attack detector together with
    some bytes from before it, so that an attack split over two chunks is
    still seen in one piece.

    The detector is a parameter. Each operation returns, besides its decision
    and the new state, the list of fragment sequences it handed to
    `check_body_fragments`, in order: this is what the coverage results are
    about.
-/

namespace Synvoid.Waf

open Synvoid.Framework

/-! ## Section 1: Data model -/

abbrev Bytes := List UInt8

def trailingWindowSize : Nat := 512

/-- What the scanner uses of `AttackDetector`: its verdict on a fragment
    sequence, and the debug text of a verdict's attack type. -/
structure AttackDetector (ρ : Type) where
  checkBodyFragments : List Bytes → Option ρ
  attackType : ρ → String

inductive StreamingWafDecision where
  | continue
  | block (status : Nat) (reason : String)
  deriving DecidableEq, Repr

inductive MultipartState where
  | none
  | lookingForBoundary
  | readingHeaders
  | readingField
  | skippingFile
  deriving DecidableEq, Repr

structure StreamingState (ρ : Type) where
  chunksProcessed : Nat
  lastResult : Option ρ
  bytesSeen : Nat
  boundary : Option Bytes
  multipartState : MultipartState
  trailingWindow : Bytes
  multipartHeaderBuffer : Bytes
  multipartFieldBuffer : Bytes
  fieldTrailingWindow : Bytes

structure StreamingWafCore (ρ : Type) where
  inner : AttackDetector ρ
  chunkSize : Nat
  maxBufferedBytes : Nat
  state : StreamingState ρ

/-- Decision, new state and fragment sequences handed to the detector. -/
structure ScanResult (σ : Type) where
  decision : StreamingWafDecision
  next : σ
  handed : List (List Bytes)

variable {ρ : Type}

def StreamingState.empty : StreamingState ρ where
  chunksProcessed := 0
  lastResult := .none
  bytesSeen := 0
  boundary := .none
  multipartState := .none
  trailingWindow := []
  multipartHeaderBuffer := []
  multipartFieldBuffer := []
  fieldTrailingWindow := []

def StreamingWafCore.withConfig (inner : AttackDetector ρ) (chunkSize maxBufferedBytes : Nat) :
    StreamingWafCore ρ where
  inner := inner
  chunkSize := chunkSize
  maxBufferedBytes := maxBufferedBytes
  state := .empty

/-- The bytes of `--`. -/
def dashes : Bytes := [45, 45]

/-- The bytes of `"\r\n\r\n"`. -/
def blankLine : Bytes := [13, 10, 13, 10]

/-- The boundary is given by the bytes of its string. -/
def StreamingWafCore.setMultipartBoundary (core : StreamingWafCore ρ) (boundary : Bytes) :
    StreamingWafCore ρ :=
  { core with state :=
      { core.state with
        boundary := some (dashes ++ boundary)
        multipartState := .lookingForBoundary } }

/-! ## Section 2: Regular bodies -/

/-- Block decision for a detection. `get_block_status` always answers 403. -/
def detected (inner : AttackDetector ρ) (text : String) (result : ρ) : StreamingWafDecision :=
  .block 403 (text ++ inner.attackType result)

/-- Rebuilds the trailing window from its old content and the new chunk. -/
def nextTrailingWindow (window chunk : Bytes) : Bytes :=
  let maxOld := trailingWindowSize - chunk.length
  let take := min window.length maxOld
  let oldStart := window.length - take
  let previousContent := window.drop oldStart
  -- as much of the old window as fits beside the chunk, then the chunk's end
  previousContent ++
    chunk.drop (chunk.length - (trailingWindowSize - previousContent.length))

def processRegularChunk (inner : AttackDetector ρ) (st : StreamingState ρ) (chunk : Bytes) :
    ScanResult (StreamingState ρ) :=
  let fragments := [st.trailingWindow, chunk]
  match inner.checkBodyFragments fragments with
  | some result =>
      { decision := detected inner "Attack detected: " result
        next := { st with lastResult := some result }
        handed := [fragments] }
  | .none =>
      { decision := .continue
        next := { st with trailingWindow := nextTrailingWindow st.trailingWindow chunk }
        handed := [fragments] }

/-! ## Section 3: Searching and copying across two fragments -/

/-- Byte at position `pos` of the two fragments read as one buffer. -/
def fragmentByte (frag0 frag1 : Bytes) (pos : Nat) : Option UInt8 :=
  if pos < frag0.length then frag0[pos]? else frag1[pos - frag0.length]?

/-- The inner loop of `find_in_fragments`: does `needle` match at `i`? -/
def matchesAt (frag0 frag1 needle : Bytes) (i : Nat) : Bool :=
  needle.zipIdx.all fun nb => fragmentByte frag0 frag1 (i + nb.2) == some nb.1

def findInFragments (frag0 frag1 : Bytes) (startPos : Nat) (needle : Bytes) : Option Nat :=
  let totalLen := frag0.length + frag1.length
  if needle = [] then some startPos
  else if startPos + needle.length > totalLen then .none
  else (List.range' startPos (totalLen - needle.length + 1 - startPos)).find?
    (matchesAt frag0 frag1 needle)

/-- Appends `len` bytes from position `startPos` on to `dest`. -/
def copyFromFragments (dest frag0 frag1 : Bytes) (startPos len : Nat) : Bytes :=
  if startPos < frag0.length then
    let take := min (frag0.length - startPos) len
    let dest := dest ++ (frag0.drop startPos).take take
    if len > take then dest ++ frag1.take (len - take) else dest
  else
    dest ++ (frag1.drop (startPos - frag0.length)).take len

/-! ## Section 4: Multipart bodies -/

/-- ASCII lower case of a byte. -/
def toAsciiLower (b : UInt8) : UInt8 := if 65 ≤ b ∧ b ≤ 90 then b + 32 else b

/-- The bytes of `filename=`. -/
def filenameEq : Bytes := [102, 105, 108, 101, 110, 97, 109, 101, 61]

/-- `String::from_utf8_lossy(header).to_lowercase().contains("filename=")`.
    Lossy decoding keeps every ASCII byte, and no other character lower-cases
    to a letter of the needle alone, so this is a search in the bytes. -/
def mentionsFilename (header : Bytes) : Bool :=
  (List.range (header.length + 1)).any fun i =>
    filenameEq.isPrefixOf ((header.map toAsciiLower).drop i)

/-- The trailing window of a form field after one more fragment of it. -/
def nextFieldWindow (previousWindow fieldFragment : Bytes) : Bytes :=
  let keepFromPrevious := trailingWindowSize - fieldFragment.length
  let previousStart := previousWindow.length - keepFromPrevious
  let window := previousWindow.drop previousStart ++ fieldFragment
  if window.length > trailingWindowSize then
    window.drop (window.length - trailingWindowSize)
  else window

/-- What one iteration of the multipart loop does: the fragments it hands to
    the detector (with the text of a block), then, unless that blocks, the
    state and position it continues with. -/
structure MultipartStep (ρ : Type) where
  scan : Option (Bytes × Bytes × String)
  next : StreamingState ρ
  currentPos : Nat

/-- A scan that is skipped for an empty fragment. -/
def scanUnlessEmpty (window fragment : Bytes) (text : String) : Option (Bytes × Bytes × String) :=
  if fragment.length > 0 then some (window, fragment, text) else .none

def multipartStep (boundary frag0 frag1 : Bytes) (st : StreamingState ρ) (currentPos : Nat) :
    MultipartStep ρ :=
  let totalLen := frag0.length + frag1.length
  match st.multipartState with
  -- what precedes the first boundary is scanned as well
  | .lookingForBoundary =>
      match findInFragments frag0 frag1 currentPos boundary with
      | some pos =>
          let preamble := copyFromFragments [] frag0 frag1 currentPos (pos - currentPos)
          { scan := scanUnlessEmpty st.trailingWindow preamble
              "Attack detected in multipart preamble: "
            next := { st with multipartState := .readingHeaders, multipartHeaderBuffer := [] }
            currentPos := pos + boundary.length }
      | .none =>
          let preamble := copyFromFragments [] frag0 frag1 currentPos (totalLen - currentPos)
          { scan := scanUnlessEmpty st.trailingWindow preamble
              "Attack detected in multipart preamble: "
            next := st
            currentPos := totalLen }
  -- headers are collected over chunks and never scanned
  | .readingHeaders =>
      match findInFragments frag0 frag1 currentPos blankLine with
      | some pos =>
          let header := copyFromFragments st.multipartHeaderBuffer frag0 frag1 currentPos
            ((pos + 4) - currentPos)
          { scan := .none
            next :=
              if mentionsFilename header then
                { st with multipartState := .skippingFile, multipartHeaderBuffer := header }
              else
                { st with
                  multipartState := .readingField
                  multipartHeaderBuffer := header
                  multipartFieldBuffer := []
                  fieldTrailingWindow := [] }
            currentPos := pos + 4 }
      | .none =>
          let header := copyFromFragments st.multipartHeaderBuffer frag0 frag1 currentPos
            (totalLen - currentPos)
          { scan := .none
            next := { st with multipartHeaderBuffer := header }
            currentPos := totalLen }
  -- a field is scanned behind its own window, kept over chunks
  | .readingField =>
      match findInFragments frag0 frag1 currentPos boundary with
      | some pos =>
          let fieldFragment := copyFromFragments [] frag0 frag1 currentPos (pos - currentPos)
          { scan := some (st.fieldTrailingWindow, fieldFragment,
              "Attack detected in multipart field: ")
            next :=
              { st with
                multipartState := .readingHeaders
                multipartHeaderBuffer := []
                fieldTrailingWindow := [] }
            currentPos := pos + boundary.length }
      | .none =>
          let fieldFragment := copyFromFragments [] frag0 frag1 currentPos (totalLen - currentPos)
          { scan := some (st.fieldTrailingWindow, fieldFragment,
              "Attack detected in multipart field fragment: ")
            next :=
              { st with
                fieldTrailingWindow := nextFieldWindow st.fieldTrailingWindow fieldFragment }
            currentPos := totalLen }
  -- a file is scanned behind the trailing window, whose bytes it repeats
  | .skippingFile =>
      match findInFragments frag0 frag1 currentPos boundary with
      | some pos =>
          let fileFragment := copyFromFragments [] frag0 frag1 currentPos (pos - currentPos)
          { scan := scanUnlessEmpty st.trailingWindow fileFragment
              "Attack detected in multipart file: "
            next := { st with multipartState := .readingHeaders, multipartHeaderBuffer := [] }
            currentPos := pos + boundary.length }
      | .none =>
          let fileFragment := copyFromFragments [] frag0 frag1 currentPos (totalLen - currentPos)
          { scan := scanUnlessEmpty st.trailingWindow fileFragment
              "Attack detected in multipart file: "
            next := st
            currentPos := totalLen }
  | .none =>
      { scan := .none
        -- not reached once a boundary is set
        next := { st with multipartState := .lookingForBoundary }
        currentPos := currentPos }

/-- The `while` loop of `process_multipart_chunk`. Every iteration moves the
    position or leaves the state `none`, so `fuel` past the buffer length is
    never used up (`multipartLoop_scan`). -/
def multipartLoop (inner : AttackDetector ρ) (boundary frag0 frag1 : Bytes) :
    Nat → StreamingState ρ → Nat → ScanResult (StreamingState ρ)
  | 0, st, _ => { decision := .continue, next := st, handed := [] }
  | fuel + 1, st, currentPos =>
      if currentPos < frag0.length + frag1.length then
        let step := multipartStep boundary frag0 frag1 st currentPos
        match step.scan with
        | some (window, fragment, text) =>
            match inner.checkBodyFragments [window, fragment] with
            | some result =>
                { decision := detected inner text result
                  next := { st with lastResult := some result }
                  handed := [[window, fragment]] }
            | .none =>
                let rest := multipartLoop inner boundary frag0 frag1 fuel step.next step.currentPos
                { rest with handed := [window, fragment] :: rest.handed }
        | .none => multipartLoop inner boundary frag0 frag1 fuel step.next step.currentPos
      else { decision := .continue, next := st, handed := [] }

def processMultipartChunk (inner : AttackDetector ρ) (st : StreamingState ρ) (chunk : Bytes) :
    ScanResult (StreamingState ρ) :=
  match st.boundary with
  | .none => { decision := .continue, next := st, handed := [] }
  | some boundary =>
      let frag0 := st.trailingWindow
      let totalLen := frag0.length + chunk.length
      let result := multipartLoop inner boundary frag0 chunk (totalLen + 2) st 0
      match result.decision with
      | .block _ _ => result
      | .continue =>
          -- enough to see a boundary or blank line that is split over chunks
          let windowSize := boundary.length + 4
          let windowStart := totalLen - windowSize
          let windowLen := totalLen - windowStart
          { result with next :=
              { result.next with
                trailingWindow := copyFromFragments [] frag0 chunk windowStart windowLen } }

/-! ## Section 5: Chunks and whole bodies -/

/-- The counters after one more chunk. -/
def StreamingState.countChunk (st : StreamingState ρ) (chunk : Bytes) : StreamingState ρ :=
  { st with
    bytesSeen := st.bytesSeen + chunk.length
    chunksProcessed := st.chunksProcessed + 1 }

@[simp] theorem countChunk_boundary (st : StreamingState ρ) (chunk : Bytes) :
    (st.countChunk chunk).boundary = st.boundary := rfl

@[simp] theorem countChunk_trailingWindow (st : StreamingState ρ) (chunk : Bytes) :
    (st.countChunk chunk).trailingWindow = st.trailingWindow := rfl

def StreamingWafCore.scanChunk (core : StreamingWafCore ρ) (chunk : Bytes) :
    ScanResult (StreamingWafCore ρ) :=
  -- the limit is checked before anything is counted or scanned
  if core.state.bytesSeen + chunk.length > core.maxBufferedBytes then
    { decision := .block 413 "Request body too large: byte limit exceeded"
      next := core
      handed := [] }
  else
    let st := core.state.countChunk chunk
    let result :=
      if st.boundary.isSome then processMultipartChunk core.inner st chunk
      else processRegularChunk core.inner st chunk
    { decision := result.decision
      next := { core with state := result.next }
      handed := result.handed }

/-- Scans chunks as long as none is blocked: the state reached and everything
    handed to the detector on the way, or nothing if a chunk was blocked. -/
def StreamingWafCore.scanChunks (core : StreamingWafCore ρ) :
    List Bytes → Option (StreamingWafCore ρ × List (List Bytes))
  | [] => some (core, [])
  | chunk :: chunks =>
      let result := core.scanChunk chunk
      match result.decision with
      | .block _ _ => .none
      | .continue =>
          (result.next.scanChunks chunks).map fun rest => (rest.1, result.handed ++ rest.2)

/-- A detector that finds nothing. -/
def silentDetector : AttackDetector Unit where
  checkBodyFragments := fun _ => .none
  attackType := fun _ => "None"

/-- The first chunk of an unblocked run is unblocked, and so are the rest. -/
theorem scanChunks_cons {core core' : StreamingWafCore ρ} {chunk : Bytes} {chunks : List Bytes}
    {handed : List (List Bytes)} (h : core.scanChunks (chunk :: chunks) = some (core', handed)) :
    (core.scanChunk chunk).decision = .continue ∧
    ∃ rest, (core.scanChunk chunk).next.scanChunks chunks = some (core', rest) ∧
      handed = (core.scanChunk chunk).handed ++ rest := by
  simp only [StreamingWafCore.scanChunks] at h
  cases hd : (core.scanChunk chunk).decision with
  | block status reason => simp [hd] at h
  | «continue» =>
    simp only [hd, Option.map_eq_some_iff, Prod.mk.injEq] at h
    obtain ⟨⟨c, rest⟩, hrest, rfl, rfl⟩ := h
    exact ⟨rfl, rest, hrest, rfl⟩

/-- A prefix of an unblocked run is unblocked. -/
theorem scanChunks_prefix {core core' : StreamingWafCore ρ} {handed : List (List Bytes)}
    (before after : List Bytes) (h : core.scanChunks (before ++ after) = some (core', handed)) :
    ∃ core₁ handed₁, core.scanChunks before = some (core₁, handed₁) := by
  induction before generalizing core handed with
  | nil => exact ⟨core, [], rfl⟩
  | cons chunk before ih =>
    obtain ⟨hd, rest, hrest, -⟩ := scanChunks_cons h
    obtain ⟨core₁, handed₁, hbefore⟩ := ih hrest
    exact ⟨core₁, (core.scanChunk chunk).handed ++ handed₁,
      by simp [StreamingWafCore.scanChunks, hd, hbefore]⟩

end Synvoid.Waf
