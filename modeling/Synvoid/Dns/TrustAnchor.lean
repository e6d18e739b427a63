import Mathlib.Algebra.Group.Nat.Defs
import Synvoid.Framework.Table

/-! # RFC 5011 trust anchors

    Model of `TrustAnchorManager` (`synvoid-dns/src/trust_anchor.rs`): the
    table of trust anchors and the operations that move an anchor through the
    RFC 5011 states. The digest of a key is a parameter, and so is every
    clock reading an operation makes.

    Not modelled: the SQLite file the table is saved to (saving never changes
    the table; its result is an input where an operation returns it, and so are
    the rows read back from it), and the fields `pending_keys` and
    `last_refresh`, which no operation here reads.
-/

namespace Synvoid.Dns

open Synvoid.Framework

/-! ## Section 1: Data model -/

inductive TrustAnchorState where
  | valid
  | seen
  | pending
  | revoked
  | removed
  | missing
  deriving DecidableEq, Repr

/-- Timestamps are seconds since the epoch. -/
structure TrustAnchor where
  keyId : String
  keyTag : UInt16
  algorithm : UInt8
  publicKey : List UInt8
  state : TrustAnchorState
  addedAt : Nat
  lastSeen : Nat
  trustPoint : Nat
  firstSeenAt : Option Nat
  pendingSince : Option Nat
  revokedAt : Option Nat
  removedAt : Option Nat
  deriving DecidableEq, Repr

structure TrustAnchorConfig where
  pendingObservationDays : Nat
  revocationGraceDays : Nat
  extendedRemovalDays : Nat
  trustAnchorRetentionDays : Nat

inductive Rfc5011Event where
  | newKeySeen (keyTag : UInt16)
  | keySeen (keyTag : UInt16)
  | keyPending (keyTag : UInt16)
  | keyWaiting (keyTag : UInt16) (remainingSecs : Nat)
  | keyPromoted (keyTag : UInt16)
  | keyRevoked (keyTag : UInt16)
  | keyRemoved (keyTag : UInt16)
  | keyPurged (keyTag : UInt16)
  | keyMissing (keyTag : UInt16)
  | keyIgnored (keyTag : UInt16) (reason : String)
  deriving DecidableEq, Repr

/-- `compute_ds_digest(digest_type, flags, protocol, algorithm, public_key)`. -/
abbrev DsDigest := UInt8 → UInt16 → UInt8 → UInt8 → List UInt8 → Except String (List UInt8)

abbrev AnchorTable := Table String TrustAnchor

/-- The product `days * 86400` in 64 bits. -/
def secsOfDays (days : Nat) : Nat := days * 86400 % 2 ^ 64

theorem secsOfDays_eq {days : Nat} (h : days * 86400 < 2 ^ 64) : secsOfDays days = days * 86400 :=
  Nat.mod_eq_of_lt h

def TrustAnchor.generateKeyId (keyTag : UInt16) (algorithm : UInt8) : String :=
  toString keyTag ++ "-" ++ toString algorithm

def TrustAnchor.isExpired (anchor : TrustAnchor) (maxAgeDays now : Nat) : Bool :=
  now - anchor.lastSeen > secsOfDays maxAgeDays

/-! ## Section 2: Observing a key -/

/-- `observe_dnskey_at_root` for a key that is in the table. -/
def TrustAnchor.observe (anchor : TrustAnchor) (keyTag : UInt16) (publicKey : List UInt8)
    (isRevoked : Bool) (now : Nat) : TrustAnchor × Rfc5011Event :=
  if anchor.publicKey ≠ publicKey then
    (anchor, .keyIgnored keyTag "public key mismatch")
  else
    -- the key is noted as seen, whatever its state
    let anchor := { anchor with lastSeen := now }
    if isRevoked then
      if anchor.state ≠ .revoked then
        ({ anchor with state := .revoked, revokedAt := some now }, .keyRevoked keyTag)
      else (anchor, .keySeen keyTag)
    else if anchor.state = .revoked then
      -- the state stays `Revoked` until the periodic update
      ({ anchor with removedAt := some now }, .keyRemoved keyTag)
    else if anchor.state = .missing then
      if anchor.trustPoint = 0 then
        (anchor, .keyIgnored keyTag "missing key was never valid, requires digest verification")
      else
        ({ anchor with state := .pending, pendingSince := some now, lastSeen := now },
          .keyPending keyTag)
    else (anchor, .keySeen keyTag)

def observeDnskeyAtRoot (anchors : AnchorTable) (keyTag : UInt16) (algorithm : UInt8)
    (publicKey : List UInt8) (isRevoked : Bool) (now : Nat) : AnchorTable × Rfc5011Event :=
  if algorithm ∈ [0, 3, 5, 6] then
    (anchors, .keyIgnored keyTag ("deprecated algorithm " ++ toString algorithm))
  else
    let keyId := TrustAnchor.generateKeyId keyTag algorithm
    match anchors.lookup keyId with
    | some anchor =>
        let (anchor, event) := anchor.observe keyTag publicKey isRevoked now
        (anchors.insert keyId anchor, event)
    | none =>
        if isRevoked then (anchors, .keyIgnored keyTag "unknown revoked key")
        else
          let anchor : TrustAnchor :=
            { keyId, keyTag, algorithm, publicKey
              state := .seen
              addedAt := now
              lastSeen := now
              trustPoint := 0
              firstSeenAt := some now
              pendingSince := none
              revokedAt := none
              removedAt := none }
          (anchors.insert keyId anchor, .newKeySeen keyTag)

/-! ## Section 3: Checking a key against a digest -/

/-- Digest check of a `Seen` or a `Missing` anchor. If it passes, the anchor
    becomes `accepted`. -/
def TrustAnchor.verifyDigest (dsDigest : DsDigest) (anchor accepted : TrustAnchor)
    (keyTag : UInt16) (algorithm digestType : UInt8) (digest : List UInt8)
    (mismatch : String) : TrustAnchor × Rfc5011Event :=
  match dsDigest digestType 257 3 algorithm anchor.publicKey with
  | .error e => (anchor, .keyIgnored keyTag ("digest computation failed: " ++ e))
  | .ok computedDigest =>
      if computedDigest ≠ digest then (anchor, .keyIgnored keyTag mismatch)
      else (accepted, .keyPending keyTag)

/-- `trust_anchor_check` for a key that is in the table. -/
def TrustAnchor.check (dsDigest : DsDigest) (config : TrustAnchorConfig) (anchor : TrustAnchor)
    (keyTag : UInt16) (algorithm digestType : UInt8) (digest : List UInt8)
    (currentDnskeyKeytags : Option (List UInt16)) (now : Nat) : TrustAnchor × Rfc5011Event :=
  match anchor.state with
  | .seen =>
      anchor.verifyDigest dsDigest { anchor with state := .pending, pendingSince := some now }
        keyTag algorithm digestType digest "digest mismatch"
  | .pending =>
      -- no digest is compared here; `digest` was only needed to get into this state
      let pendingSecs := now - anchor.pendingSince.getD now
      let requiredSecs := secsOfDays config.pendingObservationDays
      if pendingSecs ≥ requiredSecs then
        -- without a list of current key tags the key counts as present
        if (currentDnskeyKeytags.map fun keytags => keytags.contains keyTag) = some false then
          (anchor, .keyWaiting keyTag 0)
        else ({ anchor with state := .valid, trustPoint := now }, .keyPromoted keyTag)
      else (anchor, .keyWaiting keyTag (requiredSecs - pendingSecs))
  | .valid => (anchor, .keySeen keyTag)
  | .revoked => (anchor, .keyRevoked keyTag)
  | .removed => (anchor, .keyRemoved keyTag)
  | .missing =>
      if anchor.trustPoint = 0 then
        (anchor, .keyIgnored keyTag "missing key was never valid, requires digest verification")
      else
        anchor.verifyDigest dsDigest
          { anchor with state := .pending, pendingSince := some now, firstSeenAt := some now }
          keyTag algorithm digestType digest "digest mismatch on missing key re-appearance"

def trustAnchorCheck (dsDigest : DsDigest) (config : TrustAnchorConfig) (anchors : AnchorTable)
    (keyTag : UInt16) (algorithm digestType : UInt8) (digest : List UInt8)
    (currentDnskeyKeytags : Option (List UInt16)) (now : Nat) : AnchorTable × Rfc5011Event :=
  let keyId := TrustAnchor.generateKeyId keyTag algorithm
  match anchors.lookup keyId with
  | some anchor =>
      let (anchor, event) :=
        anchor.check dsDigest config keyTag algorithm digestType digest currentDnskeyKeytags now
      (anchors.insert keyId anchor, event)
  | none => (anchors, .keyIgnored keyTag "key not found")

/-! ## Section 4: Periodic updates -/

/-- The loop body of `process_rfc5011_updates`: the anchor afterwards (`none`
    if it is purged), and the event. `expiryNow` is the clock as
    `is_expired` reads it. -/
def TrustAnchor.update (config : TrustAnchorConfig) (anchor : TrustAnchor) (now expiryNow : Nat) :
    Option TrustAnchor × Option Rfc5011Event :=
  match anchor.state with
  | .pending =>
      match anchor.pendingSince with
      | some pendingSince =>
          if now - pendingSince ≥ secsOfDays config.pendingObservationDays then
            (some { anchor with state := .valid, trustPoint := now },
              some (.keyPromoted anchor.keyTag))
          else (some anchor, none)
      | none => (some anchor, none)
  | .revoked =>
      match anchor.revokedAt with
      | some revokedAt =>
          if now - revokedAt ≥ secsOfDays config.revocationGraceDays then
            (some { anchor with state := .removed }, some (.keyRemoved anchor.keyTag))
          else (some anchor, none)
      | none => (some anchor, none)
  | .removed =>
      match anchor.removedAt with
      | some removedAt =>
          if now - removedAt ≥ secsOfDays config.extendedRemovalDays then
            (none, some (.keyPurged anchor.keyTag))
          else (some anchor, none)
      | none => (some anchor, none)
  | .valid =>
      if anchor.isExpired config.trustAnchorRetentionDays expiryNow then
        (some { anchor with state := .missing }, some (.keyMissing anchor.keyTag))
      else (some anchor, none)
  | _ => (some anchor, none)

def processRfc5011Updates (config : TrustAnchorConfig) (anchors : AnchorTable) (now : Nat)
    (expiryNow : String → Nat) : AnchorTable × List Rfc5011Event :=
  (anchors.traverse fun keyId anchor => (anchor.update config now (expiryNow keyId)).1,
    anchors.entries.filterMap fun e => (e.2.update config now (expiryNow e.1)).2)

/-! ## Section 5: Revocation by the operator -/

/-- `saved` is the result of saving the table. -/
def removeAnchor (anchors : AnchorTable) (keyId : String) (saved : Except String Unit) :
    AnchorTable × Except String Unit :=
  match anchors.lookup keyId with
  -- the state is changed also if saving fails; `revoked_at` is not set
  | some anchor => (anchors.insert keyId { anchor with state := .revoked }, saved)
  | none => (anchors, .error ("Anchor " ++ keyId ++ " not found"))

/-- The loop of `check_for_revoked_keys`; each key tag comes with the clock
    as it is read if the key is found. -/
def checkForRevokedKeys (anchors : AnchorTable) :
    List (UInt16 × Nat) → AnchorTable × List UInt16
  | [] => (anchors, [])
  | (keyTag, now) :: rest =>
      match anchors.modifyFirst (fun a => a.keyTag == keyTag)
          (fun a => { a with state := .revoked, revokedAt := some now }) with
      | some anchors' =>
          let (result, revoked) := checkForRevokedKeys anchors' rest
          (result, keyTag :: revoked)
      | none => checkForRevokedKeys anchors rest

/-! ## Section 6: Configured anchors -/

/-- `TrustAnchor::new`. -/
def TrustAnchor.new (keyId : String) (keyTag : UInt16) (algorithm : UInt8)
    (publicKey : List UInt8) (now : Nat) : TrustAnchor :=
  { keyId, keyTag, algorithm, publicKey
    state := .valid
    addedAt := now
    lastSeen := now
    trustPoint := now
    firstSeenAt := none
    pendingSince := none
    revokedAt := none
    removedAt := none }

def addAnchor (anchors : AnchorTable) (keyId : String) (keyTag : UInt16) (algorithm : UInt8)
    (publicKey : List UInt8) (now : Nat) (saved : Except String Unit) :
    AnchorTable × Except String Unit :=
  match anchors.lookup keyId with
  | some _ => (anchors, .error ("Anchor " ++ keyId ++ " already exists"))
  | none => (anchors.insert keyId (TrustAnchor.new keyId keyTag algorithm publicKey now), saved)

/-- `rows` are the rows of the saved table that could be read. -/
def loadAnchors (anchors : AnchorTable) (rows : List TrustAnchor) : AnchorTable :=
  rows.foldl (fun anchors row => anchors.insert row.keyId row) anchors

/-- `records` are the key tag, algorithm and key of each key in the file. -/
def loadInitialAnchorsFromFile (anchors : AnchorTable) (now : Nat) :
    List (UInt16 × UInt8 × List UInt8) → AnchorTable
  | [] => anchors
  | (keyTag, algorithm, publicKey) :: records =>
      let keyId := TrustAnchor.generateKeyId keyTag algorithm
      match anchors.lookup keyId with
      | some _ => loadInitialAnchorsFromFile anchors now records
      | none =>
          let anchor := { TrustAnchor.new keyId keyTag algorithm publicKey now with
            firstSeenAt := some now }
          loadInitialAnchorsFromFile (anchors.insert keyId anchor) now records

def TrustAnchor.isTrusted (anchor : TrustAnchor) : Bool := anchor.state = .valid

def getTrustedAnchors (anchors : AnchorTable) : List TrustAnchor :=
  (anchors.entries.map Sigma.snd).filter TrustAnchor.isTrusted

end Synvoid.Dns
