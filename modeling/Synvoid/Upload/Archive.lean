import Synvoid.Framework.RustStr

/-! # Inspection of ZIP archives

    Model of `inspect_zip_archive` (`synvoid-upload/src/archive.rs`). The first
    phase reads the entries of the archive into memory, after checks on their names
    and declared sizes; the second hands what was read to the malware scanner.

    The ZIP reader is a parameter: an entry is what the reader says of it and a
    content of any length, which may fail to be read. The scanner is one too, and
    answers each of its calls on its own.

    An entry that cannot be opened, has the name of a directory, cannot be read to
    its end or fails to be scanned is passed over, with at most a warning.
-/

namespace Synvoid.Upload

open Synvoid.Framework

/-! ### Limits and errors -/

structure ArchiveInspectionConfig where
  enabled : Bool
  maxDepth : UInt32
  maxEntries : UInt32
  maxTotalUncompressedBytes : UInt64
  maxEntryUncompressedBytes : UInt64
  /-- Whether the quotient of two sizes, as floating-point numbers, exceeds
      `max_compression_ratio`. -/
  ratioTooHigh : UInt64 → UInt64 → Bool
  maxNestedArchives : UInt32

inductive ArchiveInspectionError where
  | disabled
  | invalidZip (reason : Str)
  | pathTraversal (reason : Str)
  | absolutePath (path : Str)
  | uncPath (path : Str)
  | symlinkRejected (path : Str)
  | tooManyEntries (count limit : UInt32)
  | entryTooLarge (size limit : UInt64)
  | compressionRatioTooHigh (size compressed : UInt64)
  | totalSizeExceeded (total limit : UInt64)
  | tooManyNestedArchives (count limit : UInt32)
  | depthExceeded (depth limit : UInt32)

/-! ### Names of entries -/

def nestedArchiveExtensions : List Str :=
  [".zip", ".jar", ".war", ".ear", ".docx", ".xlsx", ".pptx", ".odt", ".ods", ".odp", ".epub"].map
    String.toList

def isNestedArchiveFilename (toLowercase : Str → Str) (name : Str) : Bool :=
  nestedArchiveExtensions.any (·.isSuffixOf (toLowercase name))

def hasDriveLetter : Str → Bool
  | letter :: ':' :: _ => letter.isAlpha
  | _ => false

def sanitizeEntryPath (entryName : Str) : Except ArchiveInspectionError Str :=
  if '\x00' ∈ entryName then
    .error (.pathTraversal ("null byte in path: ".toList ++ entryName))
  else
    let normalized := entryName.map fun c => if c = '\\' then '/' else c
    if ['/', '/'].isPrefixOf normalized then .error (.uncPath entryName)
    else if ['/'].isPrefixOf normalized then .error (.absolutePath entryName)
    else if hasDriveLetter normalized then .error (.absolutePath entryName)
    else if (normalized.splitOn '/').any fun component => component = ['.', '.'] then
      .error (.pathTraversal (".. component in path: ".toList ++ entryName))
    else .ok normalized

def isDirectory (entryName : Str) : Bool := entryName.getLast? = some '/'

/-! ### Entries -/

/-- What the reader delivers for one entry. -/
structure ZipEntry where
  /-- The error of `by_index`. -/
  openError : Option Str
  name : Str
  size : UInt64
  compressedSize : UInt64
  unixMode : Option UInt32
  content : Bytes
  /-- Where reading the content fails: the bytes before, and the error. -/
  readError : Option (Nat × Str)

namespace ZipEntry

/-- The bytes in the buffer when the reading ends. -/
def delivered (entry : ZipEntry) : Bytes :=
  match entry.readError with
  | none => entry.content
  | some (n, _) => entry.content.take n

def isSymlink (entry : ZipEntry) : Bool :=
  match entry.unixMode with
  | some mode => mode &&& 0o170000 == 0o120000
  | none => false

end ZipEntry

/-- `position` is the index in the archive, of which the source keeps 32 bits. -/
structure CollectedEntry where
  entryName : Str
  position : Nat
  uncompressedSize : UInt64
  content : Bytes

def CollectedEntry.entryIndex (collected : CollectedEntry) : UInt32 :=
  UInt32.ofNat collected.position

def ZipEntry.collected (entry : ZipEntry) (i : Nat) : CollectedEntry :=
  { entryName := entry.name
    position := i
    uncompressedSize := entry.size
    content := entry.content }

/-! ### Checks on an entry -/

/-- Declared bytes and nested archives of the entries so far. -/
structure Totals where
  bytes : UInt64
  nested : UInt32

section checks
variable (toLowercase : Str → Str) (config : ArchiveInspectionConfig)

/-- Totals with an entry: the sum of the sizes saturates, the count wraps around. -/
def Totals.with (totals : Totals) (entry : ZipEntry) : Totals :=
  { bytes := UInt64.ofNat (min (totals.bytes.toNat + entry.size.toNat) (2 ^ 64 - 1))
    nested :=
      if isNestedArchiveFilename toLowercase entry.name then totals.nested + 1 else totals.nested }

/-- The checks on an entry that was opened: the totals after it, or `none` for a
    directory. -/
def checkEntry (totals : Totals) (entry : ZipEntry) :
    Except ArchiveInspectionError (Option Totals) :=
  match sanitizeEntryPath entry.name with
  | .error e => .error e
  | .ok _ =>
      if isDirectory entry.name then .ok none
      else if entry.isSymlink then .error (.symlinkRejected entry.name)
      else if entry.size > config.maxEntryUncompressedBytes then
        .error (.entryTooLarge entry.size config.maxEntryUncompressedBytes)
      else if entry.compressedSize > 0 && config.ratioTooHigh entry.size entry.compressedSize then
        .error (.compressionRatioTooHigh entry.size entry.compressedSize)
      else
        let totals' := totals.with toLowercase entry
        if totals'.bytes > config.maxTotalUncompressedBytes then
          .error (.totalSizeExceeded totals'.bytes config.maxTotalUncompressedBytes)
        else if isNestedArchiveFilename toLowercase entry.name &&
            totals'.nested > config.maxNestedArchives then
          .error (.tooManyNestedArchives totals'.nested config.maxNestedArchives)
        else .ok (some totals')

/-- Only a directory passes the checks without being counted. -/
theorem checkEntry_ok {totals : Totals} {entry : ZipEntry} {counted : Option Totals}
    (h : checkEntry toLowercase config totals entry = .ok counted) :
    counted = if isDirectory entry.name then none else some (totals.with toLowercase entry) := by
  unfold checkEntry at h
  split at h
  · cases h
  · by_cases hdir : isDirectory entry.name
    · simpa [hdir] using h.symm
    · simp only [hdir] at h ⊢
      split at h
      · contradiction
      · repeat' split at h
        all_goals first | contradiction | simpa using h.symm

/-! ### Reading the entries -/

/-- State of the first phase; `peak` is the most content held so far. -/
structure Collecting where
  collected : List CollectedEntry
  entriesSeen : UInt32
  totals : Totals
  warnings : List Str
  peak : Nat

/-- Bytes of content that are held between two entries. -/
def held (collected : List CollectedEntry) : Nat :=
  collected.foldl (fun n entry => n + entry.content.length) 0

def entryWarning (i : Nat) (what why : Str) : Str :=
  "entry ".toList ++ decimal i ++ ": ".toList ++ what ++ ": ".toList ++ why

/-- The warning about an entry whose compressed size is 0. -/
def storedWarnings (i : Nat) (entry : ZipEntry) : List Str :=
  if entry.compressedSize = 0 ∧ entry.size > 0 then
    [entryWarning i "stored without compression".toList entry.name]
  else []

/-- Reading of the content of an entry that passed the checks. -/
def readContent (state : Collecting) (totals : Totals) (i : Nat) (entry : ZipEntry) : Collecting :=
  let state :=
    { state with
      totals := totals
      warnings := state.warnings ++ storedWarnings i entry
      peak := max state.peak (held state.collected + entry.delivered.length) }
  match entry.readError with
  | some (_, e) =>
      { state with
        warnings := state.warnings ++ [entryWarning i "content read error".toList e] }
  | none => { state with collected := state.collected ++ [entry.collected i] }

def collectEntry (state : Collecting) (i : Nat) (entry : ZipEntry) :
    Except ArchiveInspectionError Collecting :=
  match entry.openError with
  | some e =>
      .ok { state with warnings := state.warnings ++ [entryWarning i "read error".toList e] }
  | none =>
      match checkEntry toLowercase config state.totals entry with
      | .error e => .error e
      | .ok none => .ok { state with entriesSeen := state.entriesSeen + 1 }
      | .ok (some totals) =>
          .ok (readContent { state with entriesSeen := state.entriesSeen + 1 } totals i entry)

/-- The loop of the first phase, with the state it ends in. -/
def collectEntries : List ZipEntry → Nat → Collecting → Collecting × Option ArchiveInspectionError
  | [], _, state => (state, none)
  | entry :: rest, i, state =>
      match collectEntry toLowercase config state i entry with
      | .error e => (state, some e)
      | .ok state' => collectEntries rest (i + 1) state'

/-- Every entry that can be opened passes the checks. -/
def AllChecked : List ZipEntry → Totals → Prop
  | [], _ => True
  | entry :: rest, totals =>
      if entry.openError.isSome then AllChecked rest totals
      else
        (checkEntry toLowercase config totals entry).isOk ∧
          AllChecked rest
            (if isDirectory entry.name then totals else totals.with toLowercase entry)

/-- From the first entry to the first that fails a check, the content that was read
    before and the one being read have at most `limit` bytes together. -/
def FitsFrom (limit : Nat) : List ZipEntry → Totals → Nat → Prop
  | [], _, _ => True
  | entry :: rest, totals, before =>
      if entry.openError.isSome then FitsFrom limit rest totals before
      else
        (checkEntry toLowercase config totals entry).isOk →
          if isDirectory entry.name then FitsFrom limit rest totals before
          else
            before + entry.delivered.length ≤ limit ∧
              FitsFrom limit rest (totals.with toLowercase entry)
                (if entry.readError.isSome then before else before + entry.content.length)

end checks

/-- An entry whose content reaches the scanner. -/
def ZipEntry.isReadable (entry : ZipEntry) : Bool :=
  entry.openError.isNone && !isDirectory entry.name && entry.readError.isNone

/-- The readable entries, from the one at position `i` on. -/
def readable : List ZipEntry → Nat → List CollectedEntry
  | [], _ => []
  | entry :: rest, i =>
      if entry.isReadable then entry.collected i :: readable rest (i + 1)
      else readable rest (i + 1)

@[simp] theorem held_concat (collected : List CollectedEntry) (entry : CollectedEntry) :
    held (collected ++ [entry]) = held collected + entry.content.length := by
  simp [held]

section collecting
variable (toLowercase : Str → Str) (config : ArchiveInspectionConfig)

theorem readContent_collected (state : Collecting) (totals : Totals) (i : Nat) (entry : ZipEntry) :
    (readContent state totals i entry).collected =
      if entry.readError.isSome then state.collected
      else state.collected ++ [entry.collected i] := by
  unfold readContent
  cases entry.readError <;> rfl

theorem readContent_totals (state : Collecting) (totals : Totals) (i : Nat) (entry : ZipEntry) :
    (readContent state totals i entry).totals = totals := by
  unfold readContent
  cases entry.readError <;> rfl

theorem readContent_peak (state : Collecting) (totals : Totals) (i : Nat) (entry : ZipEntry) :
    (readContent state totals i entry).peak =
      max state.peak (held state.collected + entry.delivered.length) := by
  unfold readContent
  cases entry.readError <;> rfl

/-- What one round of the loop does: the entry cannot be opened, fails a check, is a
    directory or is read. -/
theorem collectEntry_cases (state : Collecting) (i : Nat) (entry : ZipEntry) :
    (entry.openError.isSome ∧
      ∃ warnings, collectEntry toLowercase config state i entry = .ok { state with warnings }) ∨
    (entry.openError = none ∧
      (checkEntry toLowercase config state.totals entry).isOk = false ∧
      ∃ e, collectEntry toLowercase config state i entry = .error e) ∨
    (entry.openError = none ∧ (checkEntry toLowercase config state.totals entry).isOk ∧
      isDirectory entry.name ∧
      collectEntry toLowercase config state i entry =
        .ok { state with entriesSeen := state.entriesSeen + 1 }) ∨
    (entry.openError = none ∧ (checkEntry toLowercase config state.totals entry).isOk ∧
      isDirectory entry.name = false ∧
      collectEntry toLowercase config state i entry =
        .ok (readContent { state with entriesSeen := state.entriesSeen + 1 }
          (state.totals.with toLowercase entry) i entry)) := by
  unfold collectEntry
  cases hopen : entry.openError with
  | some e => exact .inl ⟨rfl, _, rfl⟩
  | none =>
    cases hcheck : checkEntry toLowercase config state.totals entry with
    | error e => exact .inr (.inl ⟨rfl, rfl, e, rfl⟩)
    | ok counted =>
      have hcounted := checkEntry_ok toLowercase config hcheck
      by_cases hdir : isDirectory entry.name
      · rw [if_pos hdir] at hcounted
        subst hcounted
        exact .inr (.inr (.inl ⟨rfl, rfl, hdir, rfl⟩))
      · rw [if_neg hdir] at hcounted
        subst hcounted
        exact .inr (.inr (.inr ⟨rfl, rfl, by simpa using hdir, rfl⟩))

/-- The first phase ends without an error just when every entry passes, and has then
    collected the readable entries. -/
theorem collectEntries_ok (entries : List ZipEntry) (i : Nat) (state : Collecting) :
    ((collectEntries toLowercase config entries i state).2 = none ↔
      AllChecked toLowercase config entries state.totals) ∧
    (AllChecked toLowercase config entries state.totals →
      (collectEntries toLowercase config entries i state).1.collected =
        state.collected ++ readable entries i) := by
  induction entries generalizing i state with
  | nil => simp [collectEntries, AllChecked, readable]
  | cons entry rest ih =>
    rw [collectEntries, AllChecked, readable, ZipEntry.isReadable]
    obtain ⟨hopen, w, hw⟩ | ⟨hopen, hcheck, e, he⟩ | ⟨hopen, hcheck, hdir, hs⟩ |
      ⟨hopen, hcheck, hdir, hs⟩ := collectEntry_cases toLowercase config state i entry
    · have hnone : entry.openError.isNone = false := by simpa using hopen
      simpa [hw, hopen, hnone] using ih (i + 1) { state with warnings := w }
    · simp [he, hopen, hcheck]
    · simpa [hs, hopen, hcheck, hdir] using
        ih (i + 1) { state with entriesSeen := state.entriesSeen + 1 }
    · have hrest := ih (i + 1) (readContent { state with entriesSeen := state.entriesSeen + 1 }
        (state.totals.with toLowercase entry) i entry)
      rw [readContent_totals, readContent_collected] at hrest
      cases hread : entry.readError with
      | none => simpa [hs, hopen, hcheck, hdir, hread] using hrest
      | some n => simpa [hs, hopen, hcheck, hdir, hread] using hrest

theorem sanitizeEntryPath_error {entryName : Str} {e : ArchiveInspectionError}
    (h : sanitizeEntryPath entryName = .error e) : e ≠ .disabled := by
  rintro rfl
  unfold sanitizeEntryPath at h
  dsimp only at h
  repeat' split at h
  all_goals exact nomatch h

theorem checkEntry_error {totals : Totals} {entry : ZipEntry} {e : ArchiveInspectionError}
    (h : checkEntry toLowercase config totals entry = .error e) : e ≠ .disabled := by
  unfold checkEntry at h
  split at h
  case h_1 e' hpath =>
    obtain rfl : e' = e := by simpa using h
    exact sanitizeEntryPath_error hpath
  case h_2 =>
    rintro rfl
    dsimp only at h
    repeat' split at h
    all_goals exact nomatch h

theorem collectEntries_error (entries : List ZipEntry) (i : Nat) (state : Collecting)
    (e : ArchiveInspectionError)
    (h : (collectEntries toLowercase config entries i state).2 = some e) : e ≠ .disabled := by
  induction entries generalizing i state with
  | nil => exact nomatch h
  | cons entry rest ih =>
    rw [collectEntries] at h
    split at h
    case h_2 state' _ => exact ih (i + 1) state' h
    case h_1 e' herror =>
      obtain rfl : e' = e := by simpa using h
      unfold collectEntry at herror
      grind [checkEntry_error]

/-- The most content the first phase holds. -/
theorem collectEntries_peak (limit : Nat) (entries : List ZipEntry) (i : Nat) (state : Collecting) :
    (collectEntries toLowercase config entries i state).1.peak ≤ limit ↔
      state.peak ≤ limit ∧
        FitsFrom toLowercase config limit entries state.totals (held state.collected) := by
  induction entries generalizing i state with
  | nil => simp [collectEntries, FitsFrom]
  | cons entry rest ih =>
    rw [collectEntries, FitsFrom]
    obtain ⟨hopen, w, hw⟩ | ⟨hopen, hcheck, e, he⟩ | ⟨hopen, hcheck, hdir, hs⟩ |
      ⟨hopen, hcheck, hdir, hs⟩ := collectEntry_cases toLowercase config state i entry
    · simpa [hw, hopen] using ih (i + 1) { state with warnings := w }
    · simp [he, hopen, hcheck]
    · simpa [hs, hopen, hcheck, hdir] using
        ih (i + 1) { state with entriesSeen := state.entriesSeen + 1 }
    · have hrest := ih (i + 1) (readContent { state with entriesSeen := state.entriesSeen + 1 }
        (state.totals.with toLowercase entry) i entry)
      rw [readContent_totals, readContent_collected, readContent_peak] at hrest
      have hcontent : held (if entry.readError.isSome then state.collected
          else state.collected ++ [entry.collected i]) =
          if entry.readError.isSome then held state.collected
          else held state.collected + entry.content.length := by
        split
        · rfl
        · rw [held_concat]
          rfl
      simp only [hcontent, max_le_iff, and_assoc] at hrest
      simpa [hs, hopen, hcheck, hdir] using hrest

end collecting

/-! ### Scanning what was read -/

structure ScanContext where
  filename : Option Str
  declaredMime : Option Str
  detectedMime : Option Str
  size : Option UInt64

def ScanContext.default : ScanContext := ⟨none, none, none, none⟩

structure MalwareMatch where
  ruleName : Str

/-- The scanner may time out or have no free slot, so its answer depends on the
    call: `none` is the scan of the whole upload, `some i` that of entry `i`. -/
structure MalwareScanner where
  scanBytesWithContext : Option Nat → Bytes → ScanContext → Except Str (List MalwareMatch)

structure ArchiveEntryMatch where
  malwareMatch : MalwareMatch
  entryPath : Str
  entryIndex : UInt32

structure ScanCall where
  entry : CollectedEntry
  answer : Except Str (List MalwareMatch)

structure ArchiveInspectionResult where
  entriesSeen : UInt32
  entriesScanned : UInt32
  nestedArchivesSeen : UInt32
  maxDepthReached : UInt32
  totalUncompressedBytesSeen : UInt64
  truncated : Bool
  found : List ArchiveEntryMatch
  warnings : List Str

section scanning
variable (scanner : MalwareScanner)

def scanContext (entry : CollectedEntry) : ScanContext :=
  { ScanContext.default with
    filename := some entry.entryName
    size := some entry.uncompressedSize }

def scanEntry (entry : CollectedEntry) : Except Str (List MalwareMatch) :=
  scanner.scanBytesWithContext (some entry.position) entry.content (scanContext entry)

/-- The result after the scan of one entry. -/
def recordScan (result : ArchiveInspectionResult) (entry : CollectedEntry) :
    ArchiveInspectionResult :=
  match scanEntry scanner entry with
  | .ok found =>
      { result with
        entriesScanned := result.entriesScanned + 1
        found := result.found ++
          found.map fun m => ⟨m, entry.entryName, entry.entryIndex⟩ }
  | .error e =>
      { result with
        warnings := result.warnings ++
          [entryWarning entry.entryIndex.toNat "scan error".toList e] }

/-- The scan of an entry reports no malware: it is clean, or it fails. -/
def NothingFound (entry : CollectedEntry) : Prop :=
  ∀ found, scanEntry scanner entry = .ok found → found = []

theorem recordScan_found (result : ArchiveInspectionResult) (entry : CollectedEntry) :
    (recordScan scanner result entry).found = [] ↔
      result.found = [] ∧ NothingFound scanner entry := by
  unfold recordScan NothingFound
  cases scanEntry scanner entry with
  | ok found => simp
  | error e => simp

theorem foldl_recordScan_found (entries : List CollectedEntry) (result : ArchiveInspectionResult) :
    (entries.foldl (recordScan scanner) result).found = [] ↔
      result.found = [] ∧ ∀ entry ∈ entries, NothingFound scanner entry := by
  induction entries generalizing result with
  | nil => simp
  | cons entry rest ih => simp [ih, recordScan_found, and_assoc]

end scanning

/-! ### The inspection -/

/-- An inspection: what it returns, the calls of the scanner, and the most content
    held at once. -/
structure Inspection where
  outcome : Except ArchiveInspectionError ArchiveInspectionResult
  scanCalls : List ScanCall
  peak : Nat

def Inspection.failed (e : ArchiveInspectionError) (peak : Nat) : Inspection :=
  ⟨.error e, [], peak⟩

/-- `ZipArchive::new` and `to_lowercase`. -/
structure ZipReader where
  newArchive : Bytes → Except Str (List ZipEntry)
  toLowercase : Str → Str

/-- The second phase, which holds no more than the first. -/
def scanCollected (scanner : MalwareScanner) (config : ArchiveInspectionConfig)
    (currentDepth entryCount : UInt32) (state : Collecting) : Inspection :=
  let result : ArchiveInspectionResult :=
    { entriesSeen := state.entriesSeen
      entriesScanned := 0
      nestedArchivesSeen := state.totals.nested
      maxDepthReached := currentDepth
      totalUncompressedBytesSeen := state.totals.bytes
      truncated := false
      found := []
      warnings := state.warnings }
  let result := state.collected.foldl (recordScan scanner) result
  { outcome := .ok { result with truncated := entryCount ≥ config.maxEntries }
    scanCalls := state.collected.map fun entry => ⟨entry, scanEntry scanner entry⟩
    peak := state.peak }

def Collecting.start : Collecting := ⟨[], 0, ⟨0, 0⟩, [], 0⟩

def inspectZipArchive (reader : ZipReader) (data : Bytes) (config : ArchiveInspectionConfig)
    (scanner : MalwareScanner) (currentDepth : UInt32) : Inspection :=
  if !config.enabled then .failed .disabled 0
  else if currentDepth > config.maxDepth then
    .failed (.depthExceeded currentDepth config.maxDepth) 0
  else
    match reader.newArchive data with
    | .error e => .failed (.invalidZip ("failed to open ZIP: ".toList ++ e)) 0
    | .ok entries =>
        let entryCount := UInt32.ofNat entries.length
        if entryCount > config.maxEntries then
          .failed (.tooManyEntries entryCount config.maxEntries) 0
        else
          match collectEntries reader.toLowercase config entries 0 .start with
          | (state, some e) => .failed e state.peak
          | (state, none) => scanCollected scanner config currentDepth entryCount state

section inspection
variable (reader : ZipReader) (data : Bytes) (config : ArchiveInspectionConfig)
  (scanner : MalwareScanner)

/-- The entries of an upload, none where the reader refuses it. -/
def archiveEntries : List ZipEntry := (reader.newArchive data).toOption.getD []

/-- The archive opens, has not too many entries, and each of them passes the checks. -/
structure Admissible : Prop where
  opens : (reader.newArchive data).isOk
  count : UInt32.ofNat (archiveEntries reader data).length ≤ config.maxEntries
  checked : AllChecked reader.toLowercase config (archiveEntries reader data) ⟨0, 0⟩

variable {config}

/-- An inspection at the top level has a result just for an admissible archive. It
    has then scanned the readable entries. -/
theorem inspectZipArchive_cases (henabled : config.enabled = true) :
    (¬ Admissible reader data config ∧
      ∃ e peak, e ≠ .disabled ∧
        inspectZipArchive reader data config scanner 0 = .failed e peak) ∨
    (Admissible reader data config ∧
      ∃ state n, state.collected = readable (archiveEntries reader data) 0 ∧
        inspectZipArchive reader data config scanner 0 =
          scanCollected scanner config 0 n state) := by
  have hdepth : ¬ (0 : UInt32) > config.maxDepth := by simp
  unfold inspectZipArchive
  rw [if_neg (by simp [henabled]), if_neg hdepth]
  cases hopen : reader.newArchive data with
  | error e =>
    refine .inl ⟨fun h => ?_, _, _, ?_, rfl⟩
    · simpa [hopen, Except.isOk, Except.toBool] using h.opens
    · exact ArchiveInspectionError.noConfusion
  | ok entries =>
    have hentries : archiveEntries reader data = entries := by
      simp [archiveEntries, hopen, Except.toOption]
    simp only
    split
    case isTrue hcount =>
      refine .inl ⟨fun h => ?_, _, _, ?_, rfl⟩
      · have hle := h.count
        rw [hentries] at hle
        exact absurd hcount (UInt32.not_lt.mpr hle)
      · exact ArchiveInspectionError.noConfusion
    case isFalse hcount =>
      have hspec := collectEntries_ok reader.toLowercase config entries 0 Collecting.start
      have herror := collectEntries_error reader.toLowercase config entries 0 Collecting.start
      cases hrun : collectEntries reader.toLowercase config entries 0 Collecting.start with
      | mk state result =>
      rw [hrun] at hspec herror
      cases result with
      | some e =>
        refine .inl ⟨fun h => ?_, _, _, herror e rfl, rfl⟩
        exact nomatch hspec.1.mpr (hentries ▸ h.checked)
      | none =>
        have hchecked := hspec.1.mp rfl
        refine .inr ⟨⟨by rw [hopen]; rfl, ?_, ?_⟩, state, _, ?_, rfl⟩
        · rw [hentries]
          exact UInt32.not_lt.mp hcount
        · rw [hentries]
          exact hchecked
        · rw [hentries]
          exact hspec.2 hchecked

/-- What an inspection at any depth holds at once. -/
theorem inspectZipArchive_peak (henabled : config.enabled = true) (limit : Nat) :
    (∀ depth, (inspectZipArchive reader data config scanner depth).peak ≤ limit) ↔
      (UInt32.ofNat (archiveEntries reader data).length ≤ config.maxEntries →
        FitsFrom reader.toLowercase config limit (archiveEntries reader data) ⟨0, 0⟩ 0) := by
  have hrun (depth : UInt32) : (inspectZipArchive reader data config scanner depth).peak =
      if depth ≤ config.maxDepth ∧
          UInt32.ofNat (archiveEntries reader data).length ≤ config.maxEntries then
        (collectEntries reader.toLowercase config (archiveEntries reader data) 0 .start).1.peak
      else 0 := by
    unfold inspectZipArchive archiveEntries
    rw [if_neg (by simp [henabled])]
    by_cases hdepth : depth > config.maxDepth
    · have hnot : ¬ depth ≤ config.maxDepth := UInt32.not_le.mpr hdepth
      simp [hdepth, hnot, Inspection.failed]
    · have hle : depth ≤ config.maxDepth := UInt32.not_lt.mp hdepth
      rw [if_neg hdepth]
      cases hopen : reader.newArchive data with
      | error e => simp [Inspection.failed, Except.toOption, collectEntries, Collecting.start]
      | ok entries =>
        simp only [Except.toOption, Option.getD_some, hle, true_and]
        by_cases hcount : UInt32.ofNat entries.length > config.maxEntries
        · rw [if_pos hcount, if_neg (UInt32.not_le.mpr hcount)]
          rfl
        · rw [if_neg hcount, if_pos (UInt32.not_lt.mp hcount)]
          cases collectEntries reader.toLowercase config entries 0 .start with
          | mk state result => cases result <;> rfl
  have hpeak := collectEntries_peak reader.toLowercase config limit (archiveEntries reader data) 0
    .start
  simp only [Collecting.start, Nat.zero_le, true_and, held, List.foldl_nil] at hpeak
  constructor
  · intro h hcount
    have hzero := h 0
    rw [hrun, if_pos ⟨by simp, hcount⟩] at hzero
    exact hpeak.mp hzero
  · intro h depth
    rw [hrun]
    split
    case isTrue hle => exact hpeak.mpr (h hle.2)
    case isFalse => exact Nat.zero_le limit

end inspection

end Synvoid.Upload
