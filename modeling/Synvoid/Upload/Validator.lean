import Synvoid.Upload.Archive

/-! # Validation of an upload

    Model of `UploadValidator::validate_bytes` (`synvoid-upload/src/lib.rs`): size,
    MIME type, a scan of the whole upload, and the inspection of its entries when it
    begins like a ZIP archive.

    Of a successful inspection the validator looks at the matches alone, so an entry
    that was passed over does not count against the upload, and the limit on the
    content in memory is checked on declared sizes. `inspected_within_limits_iff`
    says which uploads are nevertheless scanned whole and within the limit.

    Detection and registry of MIME types are parameters. The configuration is the
    one in effect for the path of the request.
-/

namespace Synvoid.Upload

open Synvoid.Framework

inductive UploadScanFailurePolicy where
  | failClosed
  | quarantineOnError
  | failOpen
  deriving DecidableEq

inductive AllowedTypesMode where
  | allowlist
  | blocklist

inductive UploadScanStatus where
  | clean
  | malicious
  | disabled
  | unavailable
  | indeterminate
  deriving DecidableEq

/-- The reason of `ScanIndeterminate`: the text of a failed scan, or the error of an
    inspection. -/
inductive Indeterminate where
  | scan (reason : Str)
  | archive (e : ArchiveInspectionError)

inductive UploadValidationError where
  | sizeExceeded (max actual : UInt64)
  | typeNotAllowed (detected : Str) (allowed : List Str)
  | malwareDetected (found : List Str)
  | scanIndeterminate (reason : Indeterminate)

structure EffectiveUploadConfig where
  maxSizeBytes : UInt64
  allowedMimeTypes : List Str
  allowedTypesMode : AllowedTypesMode
  scanWithYara : Bool
  yaraFailurePolicy : UploadScanFailurePolicy
  archiveInspectionEnabled : Bool
  archiveMaxDepth : UInt32
  archiveMaxEntries : UInt32
  archiveMaxTotalUncompressedBytes : UInt64
  archiveMaxEntryUncompressedBytes : UInt64
  archiveRatioTooHigh : UInt64 → UInt64 → Bool
  archiveMaxNestedArchives : UInt32

def ArchiveInspectionConfig.fromEffectiveConfig (config : EffectiveUploadConfig) :
    ArchiveInspectionConfig :=
  { enabled := config.archiveInspectionEnabled
    maxDepth := config.archiveMaxDepth
    maxEntries := config.archiveMaxEntries
    maxTotalUncompressedBytes := config.archiveMaxTotalUncompressedBytes
    maxEntryUncompressedBytes := config.archiveMaxEntryUncompressedBytes
    ratioTooHigh := config.archiveRatioTooHigh
    maxNestedArchives := config.archiveMaxNestedArchives }

structure ValidationResult where
  mimeType : Str
  size : UInt64
  scanStatus : UploadScanStatus
  yaraMatches : List Str
  scanError : Option Str
  archiveDetected : Bool
  /-- The result of an inspection that was made. -/
  archive : Option ArchiveInspectionResult
  archiveError : Option ArchiveInspectionError

structure UploadValidator where
  malwareScanner : Option MalwareScanner
  reader : ZipReader
  /-- `detect_from_bytes_with_fallback` with the fallback `bin`. -/
  detectMime : Bytes → Str
  normalizeMime : Str → Str
  registryAllows : Str → List Str → Bool

def isZipArchive : Bytes → Bool
  | a :: b :: c :: _ :: _ => a == 0x50 && b == 0x4b && (c == 3 || c == 5 || c == 7)
  | _ => false

/-- A validation, with the calls of the scanner for entries of the archive. -/
structure Validation where
  outcome : Except UploadValidationError ValidationResult
  scanCalls : List ScanCall

section validate
variable (validator : UploadValidator) (config : EffectiveUploadConfig) (data : Bytes)

def isMimeAllowed (mimeType : Str) : Bool :=
  config.allowedMimeTypes.isEmpty ||
    match config.allowedTypesMode with
    | .allowlist =>
        validator.registryAllows (validator.normalizeMime mimeType) config.allowedMimeTypes
    | .blocklist =>
        !validator.registryAllows (validator.normalizeMime mimeType) config.allowedMimeTypes

def executeScan : UploadScanStatus × List Str × Option Str :=
  if !config.scanWithYara then (.disabled, [], none)
  else
    match validator.malwareScanner with
    | none =>
        match config.yaraFailurePolicy with
        | .failClosed | .quarantineOnError =>
            (.unavailable, [], some "no malware scanner available".toList)
        | .failOpen => (.unavailable, [], some "no malware scanner available (fail_open)".toList)
    | some scanner =>
        match scanner.scanBytesWithContext none data .default with
        | .ok found =>
            if found.isEmpty then (.clean, [], none)
            else (.malicious, found.map (·.ruleName), none)
        | .error e => (.indeterminate, [], some e)

/-- What an accepted upload reports, without the inspection. -/
def accepted (mimeType : Str) : ValidationResult :=
  let (scanStatus, yaraMatches, scanError) := executeScan validator config data
  { mimeType, scanStatus, yaraMatches, scanError
    size := UInt64.ofNat data.length
    archiveDetected := false
    archive := none
    archiveError := none }

/-- The inspection of the archive. Under `FailOpen` its failure is accepted. -/
def validateArchive (result : ValidationResult) : Validation :=
  if config.archiveInspectionEnabled && isZipArchive data then
    let result := { result with archiveDetected := true }
    match validator.malwareScanner with
    | none => ⟨.ok result, []⟩
    | some scanner =>
        let inspection :=
          inspectZipArchive validator.reader data (.fromEffectiveConfig config) scanner 0
        match inspection.outcome with
        | .ok inspected =>
            if inspected.found.isEmpty then
              ⟨.ok { result with archive := some inspected }, inspection.scanCalls⟩
            else
              ⟨.error (.malwareDetected (inspected.found.map fun m =>
                m.entryPath ++ ":".toList ++ m.malwareMatch.ruleName)), inspection.scanCalls⟩
        | .error .disabled => ⟨.ok result, inspection.scanCalls⟩
        | .error e =>
            match config.yaraFailurePolicy with
            | .failClosed | .quarantineOnError =>
                ⟨.error (.scanIndeterminate (.archive e)), inspection.scanCalls⟩
            | .failOpen => ⟨.ok { result with archiveError := some e }, inspection.scanCalls⟩
  else ⟨.ok result, []⟩

def validateBytes : Validation :=
  if UInt64.ofNat data.length > config.maxSizeBytes then
    ⟨.error (.sizeExceeded config.maxSizeBytes (UInt64.ofNat data.length)), []⟩
  else
    let mimeType := validator.detectMime data
    if !isMimeAllowed validator config mimeType then
      ⟨.error (.typeNotAllowed mimeType config.allowedMimeTypes), []⟩
    else
      let (scanStatus, yaraMatches, scanError) := executeScan validator config data
      if !yaraMatches.isEmpty then ⟨.error (.malwareDetected yaraMatches), []⟩
      else if (scanStatus = .indeterminate ∨ scanStatus = .unavailable) ∧
          config.yaraFailurePolicy ≠ .failOpen then
        ⟨.error (.scanIndeterminate (.scan (scanError.getD "scan failed".toList))), []⟩
      else validateArchive validator config data (accepted validator config data mimeType)

end validate

/-! ### What an accepted upload should have passed -/

def Validation.Accepted (validation : Validation) : Prop :=
  ∃ result, validation.outcome = .ok result

/-- Every entry with content was handed to the scanner, which did not fail. -/
def EveryEntryScanned (scanCalls : List ScanCall) (entries : List ZipEntry) : Prop :=
  ∀ (i : Nat) entry, entries[i]? = some entry → entry.content ≠ [] →
    ∃ call ∈ scanCalls, call.entry.position = i ∧ call.entry.content = entry.content ∧
      call.answer.isOk

section limits
variable (validator : UploadValidator) (scanner : MalwareScanner) (config : EffectiveUploadConfig)
  (data : Bytes)

/-- An accepted upload is scanned whole, and an inspection holds no more content than
    the limit on the total. -/
def InspectedWithinLimits : Prop :=
  ((validateBytes validator config data).Accepted →
    EveryEntryScanned (validateBytes validator config data).scanCalls
      (archiveEntries validator.reader data)) ∧
  ∀ depth, (inspectZipArchive validator.reader data (.fromEffectiveConfig config) scanner
    depth).peak ≤ config.archiveMaxTotalUncompressedBytes.toNat

/-- The upload passes every check that is made on it. -/
structure Passes : Prop where
  size : UInt64.ofNat data.length ≤ config.maxSizeBytes
  mime : isMimeAllowed validator config (validator.detectMime data) = true
  clean : config.scanWithYara = true →
    scanner.scanBytesWithContext none data .default = .ok []
  archive : isZipArchive data = true →
    Admissible validator.reader data (.fromEffectiveConfig config) ∧
      ∀ entry ∈ readable (archiveEntries validator.reader data) 0, NothingFound scanner entry

/-- Every entry with content is one the inspection does not pass over: the upload
    begins like an archive, and the entry can be opened, has not the name of a
    directory, is read to its end and is scanned without an error. -/
def NonePassedOver : Prop :=
  ∀ (i : Nat) entry, (archiveEntries validator.reader data)[i]? = some entry → entry.content ≠ [] →
    isZipArchive data = true ∧ entry.isReadable = true ∧
      (scanEntry scanner (entry.collected i)).isOk = true

/-- The contents that are read fit in the limit on the total, together and with the
    one that is being read. -/
def ContentsFit : Prop :=
  UInt32.ofNat (archiveEntries validator.reader data).length ≤ config.archiveMaxEntries →
    FitsFrom validator.reader.toLowercase (.fromEffectiveConfig config)
      config.archiveMaxTotalUncompressedBytes.toNat (archiveEntries validator.reader data) ⟨0, 0⟩ 0

end limits

theorem mem_readable {entries : List ZipEntry} {start : Nat} {collected : CollectedEntry} :
    collected ∈ readable entries start ↔
      ∃ (i : Nat) (entry : ZipEntry), entries[i]? = some entry ∧ entry.isReadable = true ∧
        collected = entry.collected (start + i) := by
  induction entries generalizing start with
  | nil => simp [readable]
  | cons first rest ih =>
    have hsplit : (∃ (i : Nat) (entry : ZipEntry), (first :: rest)[i]? = some entry ∧
        entry.isReadable = true ∧
        collected = entry.collected (start + i)) ↔
        (first.isReadable = true ∧ collected = first.collected start) ∨
          ∃ (i : Nat) (entry : ZipEntry), rest[i]? = some entry ∧ entry.isReadable = true ∧
            collected = entry.collected (start + 1 + i) := by
      constructor
      · rintro ⟨i, entry, hentry, hreadable, rfl⟩
        cases i with
        | zero =>
          obtain rfl : first = entry := by simpa using hentry
          exact .inl ⟨hreadable, rfl⟩
        | succ i =>
          exact .inr ⟨i, entry, by simpa using hentry, hreadable, by rw [Nat.add_right_comm]; rfl⟩
      · rintro (⟨hreadable, rfl⟩ | ⟨i, entry, hentry, hreadable, rfl⟩)
        · exact ⟨0, first, rfl, hreadable, rfl⟩
        · exact ⟨i + 1, entry, by simpa using hentry, hreadable, by rw [Nat.add_right_comm]; rfl⟩
    rw [hsplit, ← ih, readable]
    by_cases hfirst : first.isReadable = true
    · simp [hfirst]
    · simp [hfirst]

section accepted
variable {validator : UploadValidator} {scanner : MalwareScanner} (config : EffectiveUploadConfig)
  (data : Bytes)

/-- The scan of the whole upload lets it pass. -/
theorem executeScan_passes (hscanner : validator.malwareScanner = some scanner) :
    ((executeScan validator config data).2.1 = [] ∧
      (executeScan validator config data).1 ≠ .indeterminate ∧
      (executeScan validator config data).1 ≠ .unavailable) ↔
    (config.scanWithYara = true → scanner.scanBytesWithContext none data .default = .ok []) := by
  unfold executeScan
  rw [hscanner]
  by_cases hyara : config.scanWithYara = true
  · simp only [hyara]
    cases hscan : scanner.scanBytesWithContext none data .default with
    | error e => simp
    | ok found => cases found <;> simp
  · simp [hyara]

/-- A refused upload, where it should be refused. -/
theorem refused_spec {e : UploadValidationError} {calls : List ScanCall} {passes : Prop}
    (h : ¬ passes) :
    ((Validation.mk (.error e) []).Accepted ↔ passes) ∧
      ((Validation.mk (.error e) []).Accepted →
        (Validation.mk (.error e) []).scanCalls = calls) := by
  have hnot : ¬ (Validation.mk (.error e) []).Accepted := by
    rintro ⟨result, hresult⟩
    cases hresult
  exact ⟨iff_of_false hnot h, fun haccepted => absurd haccepted hnot⟩

/-- The part of `validate_bytes` on archives: what it accepts, and the calls it then
    has made. -/
theorem validateArchive_accepted (hscanner : validator.malwareScanner = some scanner)
    (henabled : config.archiveInspectionEnabled = true)
    (hpolicy : config.yaraFailurePolicy = .failClosed) (result : ValidationResult) :
    ((validateArchive validator config data result).Accepted ↔
      (isZipArchive data = true → Admissible validator.reader data (.fromEffectiveConfig config) ∧
        ∀ entry ∈ readable (archiveEntries validator.reader data) 0, NothingFound scanner entry)) ∧
    ((validateArchive validator config data result).Accepted →
      (validateArchive validator config data result).scanCalls =
        if isZipArchive data then
          (readable (archiveEntries validator.reader data) 0).map
            fun entry => ⟨entry, scanEntry scanner entry⟩
        else []) := by
  have hon : (ArchiveInspectionConfig.fromEffectiveConfig config).enabled = true := henabled
  unfold validateArchive Validation.Accepted
  by_cases hzip : isZipArchive data = true
  · simp only [henabled, hzip, hscanner, hpolicy, Bool.and_self, if_true]
    obtain ⟨hnot, e, peak, he, hrun⟩ | ⟨hyes, state, n, hcollected, hrun⟩ :=
      inspectZipArchive_cases validator.reader data scanner hon
    · rw [hrun]
      cases e <;> simp [Inspection.failed, hnot] at he ⊢
    · rw [hrun, ← hcollected]
      have hfound := foldl_recordScan_found scanner state.collected
      simp only [scanCollected]
      cases hscan : (state.collected.foldl (recordScan scanner) _).found with
      | nil => simpa using ⟨hyes, ((hfound _).mp hscan).2⟩
      | cons m rest =>
        have hsome : ¬ ∀ entry ∈ state.collected, NothingFound scanner entry := by
          intro hnone
          rw [(hfound _).mpr ⟨rfl, hnone⟩] at hscan
          cases hscan
        simpa using fun _ : Admissible _ _ _ => by simpa using hsome
  · simp [hzip]

/-- What `validate_bytes` accepts, and the calls it then has made for the entries. -/
theorem validateBytes_accepted (hscanner : validator.malwareScanner = some scanner)
    (henabled : config.archiveInspectionEnabled = true)
    (hpolicy : config.yaraFailurePolicy = .failClosed) :
    ((validateBytes validator config data).Accepted ↔ Passes validator scanner config data) ∧
    ((validateBytes validator config data).Accepted →
      (validateBytes validator config data).scanCalls =
        if isZipArchive data then
          (readable (archiveEntries validator.reader data) 0).map
            fun entry => ⟨entry, scanEntry scanner entry⟩
        else []) := by
  have harchive := validateArchive_accepted config data hscanner henabled hpolicy
    (accepted validator config data (validator.detectMime data))
  have hscan := executeScan_passes config data hscanner
  have hclosed : config.yaraFailurePolicy ≠ .failOpen := by simp [hpolicy]
  unfold validateBytes
  by_cases hsize : UInt64.ofNat data.length > config.maxSizeBytes
  · rw [if_pos hsize]
    exact refused_spec fun h => absurd hsize (UInt64.not_lt.mpr h.size)
  rw [if_neg hsize]
  by_cases hmime : isMimeAllowed validator config (validator.detectMime data) = true
  swap
  · simp only [hmime]
    exact refused_spec fun h => hmime h.mime
  simp only [hmime, Bool.not_true, Bool.false_eq_true, if_false]
  by_cases hfound : (executeScan validator config data).2.1 = []
  swap
  · rw [if_pos (by simpa using hfound)]
    exact refused_spec fun h => hfound (hscan.mpr h.clean).1
  rw [if_neg (by simp [hfound])]
  by_cases hstatus : (executeScan validator config data).1 = .indeterminate ∨
      (executeScan validator config data).1 = .unavailable
  · rw [if_pos ⟨hstatus, hclosed⟩]
    refine refused_spec fun h => ?_
    have hfine := (hscan.mpr h.clean).2
    exact hstatus.elim hfine.1 hfine.2
  rw [if_neg fun h => hstatus h.1]
  rw [not_or] at hstatus
  refine ⟨harchive.1.trans ⟨fun h => ?_, fun h => h.archive⟩, harchive.2⟩
  exact ⟨UInt64.not_lt.mp hsize, hmime, hscan.mp ⟨hfound, hstatus⟩, h⟩

/-- The calls for the readable entries cover an entry just if it is readable and its
    scan does not fail. -/
theorem everyEntryScanned_iff (entries : List ZipEntry) :
    EveryEntryScanned ((readable entries 0).map fun entry => ⟨entry, scanEntry scanner entry⟩)
      entries ↔
    ∀ (i : Nat) entry, entries[i]? = some entry → entry.content ≠ [] →
      entry.isReadable = true ∧ (scanEntry scanner (entry.collected i)).isOk = true := by
  unfold EveryEntryScanned
  refine forall₄_congr fun i entry hentry _ => ?_
  constructor
  · rintro ⟨call, hcall, hposition, -, hok⟩
    obtain ⟨collected, hcollected, rfl⟩ := List.mem_map.mp hcall
    obtain ⟨j, other, hother, hreadable, rfl⟩ := mem_readable.mp hcollected
    obtain rfl : j = i := by simpa [ZipEntry.collected] using hposition
    obtain rfl : other = entry := by simpa [hother] using hentry
    rw [Nat.zero_add] at hok
    exact ⟨hreadable, hok⟩
  · rintro ⟨hreadable, hok⟩
    refine ⟨_, List.mem_map_of_mem (mem_readable.mpr ⟨i, entry, hentry, hreadable, rfl⟩), ?_⟩
    rw [Nat.zero_add]
    exact ⟨rfl, rfl, hok⟩

/-- An upload is scanned whole and within the limit just if it is refused or no entry
    with content is passed over, and the contents that are read fit. -/
theorem inspected_within_limits_iff (hscanner : validator.malwareScanner = some scanner)
    (henabled : config.archiveInspectionEnabled = true)
    (hpolicy : config.yaraFailurePolicy = .failClosed) :
    InspectedWithinLimits validator scanner config data ↔
      (Passes validator scanner config data → NonePassedOver validator scanner data) ∧
        ContentsFit validator config data := by
  obtain ⟨haccepted, hcalls⟩ := validateBytes_accepted config data hscanner henabled hpolicy
  refine and_congr ?_ (inspectZipArchive_peak _ _ scanner henabled _)
  rw [← haccepted]
  refine forall_congr' fun h => ?_
  rw [hcalls h]
  by_cases hzip : isZipArchive data = true
  · rw [if_pos hzip, everyEntryScanned_iff]
    simp [NonePassedOver, hzip]
  · rw [if_neg hzip]
    simp [NonePassedOver, EveryEntryScanned, hzip]

end accepted

/-! ### An archive of one byte -/

/-- The archive that stores the content `x` under the name of `a` and another byte. -/
def smallArchive (last : UInt8) : Bytes :=
  [80, 75, 3, 4, 20, 0, 0, 0, 0, 0, 0, 0, 33, 0, 131, 22, 220, 140, 1, 0, 0, 0, 1, 0, 0, 0, 2, 0,
    0, 0, 97, last, 120,
    80, 75, 1, 2, 20, 0, 20, 0, 0, 0, 0, 0, 0, 0, 33, 0, 131, 22, 220, 140, 1, 0, 0, 0, 1, 0, 0, 0,
    2, 0, 0, 0, 0, 0, 0, 0, 0, 0, 0, 0, 0, 0, 0, 0, 0, 0, 97, last,
    80, 75, 5, 6, 0, 0, 0, 0, 1, 0, 1, 0, 48, 0, 0, 0, 33, 0, 0, 0, 0, 0]

def smallEntry (last : UInt8) : ZipEntry :=
  { openError := none
    name := ['a', Char.ofNat last.toNat]
    size := 1
    compressedSize := 1
    unixMode := none
    content := [120]
    readError := none }

/-- A reader that knows the small archives, with a scanner that finds nothing. -/
def smallValidator : UploadValidator :=
  { malwareScanner := some ⟨fun _ _ _ => .ok []⟩
    reader :=
      { newArchive := fun data =>
          match data[31]? with
          | some last =>
              if data = smallArchive last then .ok [smallEntry last] else .error "invalid".toList
          | none => .error "invalid".toList
        toLowercase := fun s => s.map Char.toLower }
    detectMime := fun _ => "application/zip".toList
    normalizeMime := id
    registryAllows := fun mimeType allowed => allowed.contains mimeType }

def smallConfig : EffectiveUploadConfig :=
  { maxSizeBytes := 1000
    allowedMimeTypes := []
    allowedTypesMode := .allowlist
    scanWithYara := true
    yaraFailurePolicy := .failClosed
    archiveInspectionEnabled := true
    archiveMaxDepth := 3
    archiveMaxEntries := 10
    archiveMaxTotalUncompressedBytes := 100
    archiveMaxEntryUncompressedBytes := 50
    archiveRatioTooHigh := fun size compressed => size.toNat > 100 * compressed.toNat
    archiveMaxNestedArchives := 1 }

theorem archiveEntries_small (last : UInt8) :
    archiveEntries smallValidator.reader (smallArchive last) = [smallEntry last] := by
  have hlast : (smallArchive last)[31]? = some last := rfl
  have hopen : smallValidator.reader.newArchive (smallArchive last) = .ok [smallEntry last] := by
    simp only [smallValidator, hlast, if_true]
  unfold archiveEntries
  rw [hopen]
  rfl

/-- The content of the file `ab` is scanned. -/
theorem small_file_within_limits :
    InspectedWithinLimits smallValidator ⟨fun _ _ _ => .ok []⟩ smallConfig (smallArchive 98) := by
  refine (inspected_within_limits_iff smallConfig (smallArchive 98) rfl rfl rfl).mpr
    ⟨fun _ => ?_, ?_⟩
  · intro i entry hentry _
    rw [archiveEntries_small] at hentry
    obtain rfl : smallEntry 98 = entry := by
      cases i with
      | zero => simpa using hentry
      | succ i => exact nomatch hentry
    exact ⟨rfl, by decide, rfl⟩
  · intro _
    rw [archiveEntries_small]
    simp [FitsFrom, smallEntry, ZipEntry.delivered, smallConfig]

/-- The content of the "directory" `a/` is not, and the upload is accepted. -/
theorem directory_content_unscanned :
    smallValidator.malwareScanner = some ⟨fun _ _ _ => .ok []⟩ ∧
      smallConfig.archiveInspectionEnabled = true ∧ smallConfig.yaraFailurePolicy = .failClosed ∧
      ¬ InspectedWithinLimits smallValidator ⟨fun _ _ _ => .ok []⟩ smallConfig
        (smallArchive 47) := by
  refine ⟨rfl, rfl, rfl, fun h => ?_⟩
  have haccepted : (validateBytes smallValidator smallConfig (smallArchive 47)).Accepted := by
    have hok :
        (validateBytes smallValidator smallConfig (smallArchive 47)).outcome.isOk = true := by
      decide +kernel
    unfold Validation.Accepted
    cases hresult : (validateBytes smallValidator smallConfig (smallArchive 47)).outcome with
    | ok result => exact ⟨result, rfl⟩
    | error e => rw [hresult] at hok; exact nomatch hok
  have hcalls : (validateBytes smallValidator smallConfig (smallArchive 47)).scanCalls = [] := by
    decide +kernel
  have hentry : (archiveEntries smallValidator.reader (smallArchive 47))[0]? =
      some (smallEntry 47) := by
    rw [archiveEntries_small]
    rfl
  obtain ⟨call, hcall, -⟩ := h.1 haccepted 0 (smallEntry 47) hentry (by simp [smallEntry])
  rw [hcalls] at hcall
  exact nomatch hcall

end Synvoid.Upload
