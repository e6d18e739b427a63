import Mathlib.Data.List.MinMax
import Synvoid.Framework.BigEndian
import Synvoid.Framework.Checked
import Synvoid.Framework.KeyedTable
import Synvoid.Framework.RustStr

/-! # Transaction signatures

    Model of `synvoid-dns/src/tsig.rs` and of `append_tsig_to_response`
    (`synvoid-dns/src/transfer.rs`): the keys, the replay cache, `verify`,
    `sign`, and `parse_tsig_from_query` as a program of bounds-checked accesses.

    HMAC and SHA-256 are parameters. An HMAC key may have any length, so
    `new_from_slice` does not fail and `InvalidKey` is never returned.

    The system clock and the monotonic clock are one clock, read in nanoseconds.
    The order of the cache's entries is the order in which it is iterated; only
    `evict_oldest` depends on it.
-/

namespace Synvoid.Dns

open Synvoid.Framework

/-! ## Section 1: Keys -/

inductive TsigAlgorithmRuntime where
  | hmacSha256
  | hmacSha384
  | hmacSha512
  deriving DecidableEq, Repr

namespace TsigAlgorithmRuntime

def asStr : TsigAlgorithmRuntime → String
  | hmacSha256 => "hmac-sha256."
  | hmacSha384 => "hmac-sha384."
  | hmacSha512 => "hmac-sha512."

def toU16 : TsigAlgorithmRuntime → UInt16
  | hmacSha256 => 161
  | hmacSha384 => 170
  | hmacSha512 => 172

/-- The length of the HMAC's output. -/
def minSecretLen : TsigAlgorithmRuntime → Nat
  | hmacSha256 => 32
  | hmacSha384 => 48
  | hmacSha512 => 64

end TsigAlgorithmRuntime

structure TsigRuntimeKey where
  name : Str
  secret : Bytes
  algorithm : TsigAlgorithmRuntime

/-- A key that has passed the check of its length. -/
structure TsigKey extends TsigRuntimeKey where
  long : algorithm.minSecretLen ≤ secret.length

/-- The secret the concrete keys below have. -/
theorem minSecretLen_le_sevens :
    TsigAlgorithmRuntime.hmacSha256.minSecretLen ≤ (List.replicate 32 7 : Bytes).length := by
  decide

def TsigKey.fromRuntime (key : TsigRuntimeKey) : Except Str TsigKey :=
  if h : key.secret.length < key.algorithm.minSecretLen then
    .error ("TSIG key '".toList ++ key.name ++ "' secret too short for ".toList ++
      key.algorithm.asStr.toList)
  else .ok { key with long := Nat.le_of_not_lt h }

/-- The keys under their names. -/
abbrev TsigKeys := KeyedTable fun key : TsigKey => key.name

/-- The keys of `TsigVerifier::new`. -/
def TsigKeys.new (configs : List TsigRuntimeKey) : Except Str TsigKeys :=
  configs.foldlM (fun keys config => do
    let key ← TsigKey.fromRuntime config
    return keys.insert key) .empty

inductive TsigError where
  | unknownKey (name : Str)
  | invalidKey
  | macVerificationFailed
  | macMismatch (expected actual : Nat)
  | timeInvalid
  | badSignature
  | algorithmMismatch
  | parseError (text : Str)
  | replayAttack
  deriving DecidableEq, Repr

def TsigError.toStr : TsigError → Str
  | unknownKey name => "Unknown TSIG key: ".toList ++ name
  | invalidKey => "Invalid TSIG key".toList
  | macVerificationFailed => "TSIG MAC verification failed".toList
  | macMismatch expected actual =>
      "TSIG MAC length mismatch: expected ".toList ++ decimal expected ++ ", got ".toList ++
        decimal actual
  | timeInvalid => "TSIG time out of valid range".toList
  | badSignature => "TSIG error code indicates failure".toList
  | algorithmMismatch => "TSIG algorithm mismatch".toList
  | parseError text => "TSIG parse error: ".toList ++ text
  | replayAttack => "TSIG replay attack detected".toList

/-! ## Section 2: The replay cache -/

def nanosPerSec : Nat := 1000000000

def tsigReplayCacheTtlSecs : Nat := 300

/-- `Duration::from_secs(TSIG_REPLAY_CACHE_TTL_SECS)`. -/
def replayCacheTtl : Nat := tsigReplayCacheTtlSecs * nanosPerSec

def maxReplayCacheSize : Nat := 10000

/-- The readings of the clock in one call of `verify`, in nanoseconds. They are
    taken in this order; the seconds fit into 64 bits. -/
structure ClockReads where
  verify : Nat
  elapsed : Nat
  cutoff : Nat
  cleaned : Nat
  inserted : Nat
  verify_le : verify ≤ elapsed
  elapsed_le : elapsed ≤ cutoff
  cutoff_le : cutoff ≤ cleaned
  cleaned_le : cleaned ≤ inserted
  seconds_lt : inserted / nanosPerSec < 2 ^ 64

/-- `unix_timestamp_secs`. -/
def ClockReads.unixTimestampSecs (clock : ClockReads) : UInt64 :=
  UInt64.ofNat (clock.verify / nanosPerSec)

/-- When each MAC hash was entered, and the last sweep. -/
structure ReplayCache where
  entries : Table Bytes Nat
  lastCleanup : Nat

namespace ReplayCache

def new (now : Nat) : ReplayCache := ⟨∅, now⟩

def isReplay (cache : ReplayCache) (macHash : Bytes) : Bool := (cache.entries.lookup macHash).isSome

def evictOldest (cache : ReplayCache) : ReplayCache :=
  match cache.entries.entries.argmin fun e => e.2 with
  | some e => { cache with entries := cache.entries.erase e.1 }
  | none => cache

/-- A sweep comes only after the interval has elapsed, so the subtraction does
    not go below the clock's origin. -/
def cleanupExpired (cache : ReplayCache) (clock : ClockReads) : ReplayCache where
  entries := cache.entries.traverse fun _ timestamp =>
    if timestamp > clock.cutoff - replayCacheTtl then some timestamp else none
  lastCleanup := clock.cleaned

/-- The sweep of an insertion. -/
def sweep (cache : ReplayCache) (clock : ClockReads) : ReplayCache :=
  if (clock.elapsed - cache.lastCleanup) / nanosPerSec ≥ tsigReplayCacheTtlSecs then
    cache.cleanupExpired clock
  else cache

def makeRoom (cache : ReplayCache) : ReplayCache :=
  if cache.entries.entries.length ≥ maxReplayCacheSize then cache.evictOldest else cache

def insert (cache : ReplayCache) (macHash : Bytes) (clock : ClockReads) : ReplayCache :=
  let cache := (cache.sweep clock).makeRoom
  { cache with entries := cache.entries.insert macHash clock.inserted }

end ReplayCache

/-! ## Section 3: Verification and signing -/

/-- HMAC of a message under a secret. -/
abbrev Hmac := TsigAlgorithmRuntime → Bytes → Bytes → Bytes

/-- What `parse_tsig_from_query` finds. -/
structure TsigParseResult where
  keyName : Str
  algorithm : UInt16
  timeSigned : UInt64
  fudge : UInt16
  mac : Bytes
  tsigError : UInt16
  otherLen : UInt16
  originalOffset : Nat
  deriving DecidableEq, Repr

/-- `u64::abs_diff`. -/
def absDiff (a b : UInt64) : Nat := max a.toNat b.toNat - min a.toNat b.toNat

/-- The part of `data_to_sign` that `verify` and `sign` share. -/
def dataToSign (message : Bytes) (keyName : Str) (algorithm : TsigAlgorithmRuntime)
    (timeSigned : UInt64) (fudge tsigError : UInt16) : Bytes :=
  message ++ utf8 keyName ++ [0] ++ u16ToBe algorithm.toU16 ++ beBytes 8 timeSigned.toNat ++
    u16ToBe fudge ++ u16ToBe tsigError

section verification

variable (hmac : Hmac) (sha256 : Bytes → Bytes) (keys : TsigKeys)

/-- The MAC that `verify` expects. The length of the other data is covered only
    if there is any. -/
def expectedMac (key : TsigKey) (message : Bytes) (tsig : TsigParseResult) : Bytes :=
  hmac key.algorithm key.secret
    (dataToSign message tsig.keyName key.algorithm tsig.timeSigned tsig.fudge tsig.tsigError ++
      if tsig.otherLen > 0 then u16ToBe tsig.otherLen else [])

/-- The checks of `verify` up to the replay cache. -/
def authenticate (now : UInt64) (message : Bytes) (tsig : TsigParseResult) :
    Except TsigError Unit :=
  if tsig.tsigError ≠ 0 then .error .badSignature
  else if absDiff tsig.timeSigned now > tsig.fudge.toNat then .error .timeInvalid
  else match keys.get tsig.keyName with
    | none => .error (.unknownKey tsig.keyName)
    | some key =>
        if key.algorithm.toU16 ≠ tsig.algorithm then .error .algorithmMismatch
        else
          let computedMac := expectedMac hmac key message tsig
          if computedMac.length ≠ tsig.mac.length then
            .error (.macMismatch computedMac.length tsig.mac.length)
          else if computedMac ≠ tsig.mac then .error .macVerificationFailed
          else .ok ()

variable {hmac keys} in
/-- Exactly when the checks go through. -/
theorem authenticate_eq_ok_iff {now : UInt64} {message : Bytes} {tsig : TsigParseResult} :
    authenticate hmac keys now message tsig = .ok () ↔
      tsig.tsigError = 0 ∧ absDiff tsig.timeSigned now ≤ tsig.fudge.toNat ∧
      ∃ key, keys.get tsig.keyName = some key ∧ key.algorithm.toU16 = tsig.algorithm ∧
        expectedMac hmac key message tsig = tsig.mac := by
  unfold authenticate
  cases keys.get tsig.keyName with
  | none => split_ifs <;> simp
  | some key =>
    simp only
    split_ifs with herror hwindow halgorithm hlength hmac'
    · simp [herror]
    · simp [Nat.not_le.mpr hwindow]
    · simp [halgorithm]
    · constructor
      · intro h
        cases h
      · rintro ⟨-, -, key', hkey', -, hmac'⟩
        obtain rfl := Option.some.inj hkey'
        exact absurd (congrArg List.length hmac') hlength
    · constructor
      · intro h
        cases h
      · rintro ⟨-, -, key', hkey', -, hsame⟩
        obtain rfl := Option.some.inj hkey'
        exact absurd hsame hmac'
    · exact iff_of_true rfl ⟨not_not.mp herror, Nat.le_of_not_lt hwindow, key, rfl,
        not_not.mp halgorithm, not_not.mp hmac'⟩

/-- `TsigVerifier::verify`, with the fields of the parsed record. -/
def verify (cache : ReplayCache) (clock : ClockReads) (message : Bytes) (tsig : TsigParseResult) :
    Except TsigError Unit × ReplayCache :=
  match authenticate hmac keys clock.unixTimestampSecs message tsig with
  | .error e => (.error e, cache)
  | .ok () =>
      if cache.isReplay (sha256 tsig.mac) then (.error .replayAttack, cache)
      else (.ok (), cache.insert (sha256 tsig.mac) clock)

def signFudge : UInt16 := 300

/-- The MAC that `sign` computes. -/
def signedMac (key : TsigKey) (keyName : Str) (message : Bytes) (now : UInt64)
    (tsigError : UInt16) : Bytes :=
  hmac key.algorithm key.secret
    (dataToSign message keyName key.algorithm now signFudge tsigError ++ u16ToBe 0)

def sign (now : UInt64) (keyName : Str) (message : Bytes) (tsigError : UInt16) :
    Except TsigError Bytes :=
  match keys.get keyName with
  | none => .error (.unknownKey keyName)
  | some key =>
      let mac := signedMac hmac key keyName message now tsigError
      .ok (utf8 keyName ++ [0] ++ u16ToBe key.algorithm.toU16 ++ u16ToBe signFudge ++
        beBytes 8 now.toNat ++ u16ToBe (UInt16.ofNat mac.length) ++ mac ++ u16ToBe tsigError ++
        u16ToBe 0)

/-- `append_tsig_to_response`. -/
def appendTsigToResponse (tsigVerifier : Option TsigKeys) (now : UInt64) (response : Bytes)
    (keyName : Str) : Checked (Except Str Bytes) :=
  match tsigVerifier with
  | none => return .error "TSIG not configured".toList
  | some keys =>
      match sign hmac keys now keyName response 0 with
      | .error e => return .error e.toStr
      | .ok signed =>
          if response.length < 12 then return .error "Response too short for TSIG".toList
          else do
            let arcount ← readU16 response 10
            let newArcount ← checkedAdd 16 arcount.toNat 1
            return .ok (response.take 10 ++ u16ToBe (UInt16.ofNat newArcount) ++
              response.drop 12 ++ signed)

end verification

/-! ## Section 4: Finding the record -/

/-- The loop over an owner name: the position of its zero byte, or one past the
    end. -/
def skipLabels (query : Bytes) : Nat → Nat → Nat
  | 0, pos => pos
  | fuel + 1, pos =>
      if pos < query.length ∧ byteAt query pos ≠ 0 then
        skipLabels query fuel (pos + 1 + (byteAt query pos).toNat)
      else pos

/-- The position of the type of the record at `pos`; `none` if its name does
    not end. The zero byte of an empty name is not skipped. -/
def skipOwner (query : Bytes) (pos : Nat) : Option Nat :=
  if byteAt query pos ≠ 0 then
    let stop := skipLabels query (query.length + 1) pos
    if stop ≥ query.length then none else some (stop + 1)
  else some pos

theorem le_skipLabels (q : Bytes) (fuel pos : Nat) : pos ≤ skipLabels q fuel pos := by
  induction fuel generalizing pos with
  | zero => exact Nat.le_refl _
  | succ fuel ih =>
    unfold skipLabels
    split
    · exact Nat.le_trans (by omega) (ih _)
    · exact Nat.le_refl _

theorem le_of_skipOwner {q : Bytes} {pos stop : Nat} (h : skipOwner q pos = some stop) :
    pos ≤ stop := by
  have hle := le_skipLabels q (q.length + 1) pos
  unfold skipOwner at h
  split at h
  · simp only at h
    split at h
    · cases h
    · obtain rfl := Option.some.inj h
      omega
  · exact Nat.le_of_eq (Option.some.inj h)

/-- A label joined to a name. -/
def pushLabel (name : Str) (label : Bytes) : Str :=
  (if name = [] then [] else name ++ ['.']) ++ fromUtf8Lossy label

/-- The loop over the key name. -/
def readKeyName (query : Bytes) : Nat → Nat → Str → Checked (Option (Str × Nat))
  | 0, pos, name => return some (name, pos)
  | fuel + 1, pos, name =>
      if pos < query.length then do
        let len ← index query pos
        if len = 0 then return some (name, pos + 1)
        else if pos + 1 + len.toNat > query.length then return none
        else do
          let label ← range query (pos + 1) (pos + 1 + len.toNat)
          readKeyName query fuel (pos + 1 + len.toNat) (pushLabel name label)
      else return some (name, pos)

/-- The fields behind the key name, at `pos`. -/
def readTsigFields (query : Bytes) (keyName : Str) (keyStart pos : Nat) :
    Checked (Option TsigParseResult) :=
  if pos + 14 > query.length then return none
  else do
    let algorithm ← readU16 query pos
    let time ← range query (pos + 2) (pos + 8)
    let fudge ← readU16 query (pos + 8)
    let macLen ← readU16 query (pos + 10)
    if pos + 12 + macLen.toNat > query.length then return none
    else do
      let mac ← range query (pos + 12) (pos + 12 + macLen.toNat)
      let tsigError ← readU16 query (pos + 12 + macLen.toNat)
      let otherLen ← readU16 query (pos + 14 + macLen.toNat)
      return some {
        keyName, algorithm, fudge, mac, tsigError, otherLen
        timeSigned := UInt64.ofNat (beValue time)
        originalOffset := keyStart }

/-- A TSIG record, from its key name on. -/
def readTsigRecord (query : Bytes) (keyStart : Nat) : Checked (Option TsigParseResult) := do
  let key ← readKeyName query (query.length + 1) keyStart []
  match key with
  | none => return none
  | some (keyName, stop) => readTsigFields query keyName keyStart stop

/-- The loop over the records. A record of another type is skipped by the 16
    bits behind its type, and of a TSIG record only two bytes are skipped before
    the key name. A skipped record takes at least four bytes. -/
def findTsig (query : Bytes) : Nat → Nat → Checked (Option TsigParseResult)
  | 0, _ => return none
  | fuel + 1, pos =>
      if pos + 10 ≤ query.length then
        match skipOwner query pos with
        | none => return none
        | some pos => do
            let qtype ← readU16 query pos
            if qtype ≠ 250 then do
              let rdlen ← readU16 query (pos + 2)
              findTsig query fuel (pos + 4 + rdlen.toNat)
            else readTsigRecord query (pos + 4)
      else return none

/-- `parse_tsig_from_query`. -/
def parseTsigFromQuery (query : Bytes) (qdEnd : Nat) : Checked (Option TsigParseResult) := do
  let least ← checkedAdd 64 qdEnd 11
  if query.length < least then return none
  else findTsig query (query.length + 1) qdEnd

end Synvoid.Dns
