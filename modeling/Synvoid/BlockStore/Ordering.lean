import Synvoid.Framework.IpAddr

/-! # Blocklist events and their order

    An event blocks or unblocks a target: an IP address or a mesh id, in a
    scope. Of the event that was last applied to a target the store keeps what
    later events are compared with (`LastAppliedBlocklistEvent`).

    `isNewerThan` takes the first of version, sequence number, logical time and
    timestamp in which the two differ, but the sequence number and the logical
    time only if both have one, and the sequence number only of one source. So it is
    not transitive. `Covers` says when a record can take the place of another
    without letting anything in that the other kept out.
-/

namespace Synvoid.BlockStore

open Synvoid.Framework

/-! ## Section 1: Events -/

inductive BlockProvenanceKind where
  | localWaf
  | localHoneypot
  | localAsnTracker
  | meshThreatIntelPolicyGated
  | supervisorSync
  | adminManual
  | supervisorManual
  | proxyHealthProbe
  | test
  | legacyUnknown
  deriving DecidableEq

structure BlockProvenance where
  kind : BlockProvenanceKind
  source : Option Str
  deriving DecidableEq

/-- `BlockProvenance::default`. -/
def BlockProvenance.default : BlockProvenance := ⟨.legacyUnknown, none⟩

inductive BlockTargetKind where
  | ip
  | meshId
  deriving DecidableEq

inductive BlocklistOperation where
  | block
  | unblock
  deriving DecidableEq

structure BlocklistEvent where
  operation : BlocklistOperation
  targetKind : BlockTargetKind
  identifier : Str
  siteScope : Str
  reason : Option Str
  provenance : BlockProvenance
  timestamp : Nat
  sourceNode : Option Str
  eventId : Option Str
  ttlSecs : Option Nat
  version : Option Nat
  sourceSequence : Option Nat
  logicalTime : Option Nat
  deriving DecidableEq

/-- A target is named by the text of its identifier. -/
structure BlocklistTargetKey where
  targetKind : BlockTargetKind
  siteScope : Str
  identifier : Str
  deriving DecidableEq

structure LastAppliedBlocklistEvent where
  timestamp : Nat
  version : Option Nat
  eventId : Option Str
  operation : BlocklistOperation
  sourceNode : Option Str
  provenance : BlockProvenance
  sourceSequence : Option Nat
  logicalTime : Option Nat
  deriving DecidableEq

def BlocklistEvent.targetKey (event : BlocklistEvent) : BlocklistTargetKey where
  targetKind := event.targetKind
  siteScope := event.siteScope
  identifier := event.identifier

/-- What is kept of an event once it is applied. -/
def BlocklistEvent.lastApplied (event : BlocklistEvent) : LastAppliedBlocklistEvent where
  timestamp := event.timestamp
  version := event.version
  eventId := event.eventId
  operation := event.operation
  sourceNode := event.sourceNode
  provenance := event.provenance
  sourceSequence := event.sourceSequence
  logicalTime := event.logicalTime

/-- The text under which the entry of a target is kept: an address as it is
    written, whichever way it was spelled; `none` if it is no address. -/
def entryIdentifier : BlockTargetKind → Str → Option Str
  | .ip, identifier => (IpAddr.parse identifier).map IpAddr.display
  | .meshId, identifier => some identifier

/-- The targets that an event leaves a record for: its own, and the address as
    it is written. -/
def BlocklistEvent.recordKeys (event : BlocklistEvent) : List BlocklistTargetKey :=
  event.targetKey :: (entryIdentifier event.targetKind event.identifier).toList.map
    fun identifier => ⟨event.targetKind, event.siteScope, identifier⟩

/-! ## Section 2: Which of two is newer -/

namespace LastAppliedBlocklistEvent

/-- The source with its sequence number, if both are known. -/
def sourcePosition (r : LastAppliedBlocklistEvent) : Option (Str × Nat) :=
  r.sourceNode.bind fun node => r.sourceSequence.map (node, ·)

def isNewerByTime (self other : LastAppliedBlocklistEvent) : Bool :=
  match self.logicalTime, other.logicalTime with
  | some a, some b => if a ≠ b then a > b else self.timestamp > other.timestamp
  | _, _ => self.timestamp > other.timestamp

def isNewerBySequence (self other : LastAppliedBlocklistEvent) : Bool :=
  match self.sourcePosition, other.sourcePosition with
  | some (p, m), some (q, n) => if p = q ∧ m ≠ n then m > n else self.isNewerByTime other
  | _, _ => self.isNewerByTime other

/-- `is_newer_than`. -/
def isNewerThan (self other : LastAppliedBlocklistEvent) : Bool :=
  match self.version, other.version with
  | some a, some b => if a ≠ b then a > b else self.isNewerBySequence other
  | some _, none => true
  | none, some _ => false
  | none, none => self.isNewerBySequence other

/-- The new record has a source position if the old one has one, of the same
    source and not below it. -/
def coversSequence (new old : LastAppliedBlocklistEvent) : Bool :=
  match old.sourcePosition, new.sourcePosition with
  | some (p, m), some (q, n) => p = q ∧ m ≤ n
  | some (_, m), none => m = 0
  | none, some _ => false
  | none, none => true

def coversLogicalTime (new old : LastAppliedBlocklistEvent) : Bool :=
  match old.logicalTime, new.logicalTime with
  | some a, some b => a ≤ b
  | some a, none => a = 0
  | none, some _ => false
  | none, none => true

def coversVersion (new old : LastAppliedBlocklistEvent) : Bool :=
  match old.version, new.version with
  | some a, some b => a < b
  | none, some _ => true
  | _, none => false

/-- The new record has a higher version, or the same version and nothing that
    an event could be compared by is lower, missing or added. -/
def covers (new old : LastAppliedBlocklistEvent) : Bool :=
  coversVersion new old ||
    (new.version == old.version && coversSequence new old && coversLogicalTime new old &&
      old.timestamp ≤ new.timestamp)

theorem isNewerByTime_of_covers {new old x : LastAppliedBlocklistEvent}
    (hlogical : coversLogicalTime new old = true) (htime : old.timestamp ≤ new.timestamp)
    (h : x.isNewerByTime new = true) : x.isNewerByTime old = true := by
  unfold coversLogicalTime at hlogical
  unfold isNewerByTime at h ⊢
  cases hx : x.logicalTime <;> cases hnew : new.logicalTime <;> cases hold : old.logicalTime <;>
    simp only [hx, hnew, hold] at h hlogical ⊢ <;>
    grind

theorem isNewerBySequence_of_covers {new old x : LastAppliedBlocklistEvent}
    (hsequence : coversSequence new old = true) (hlogical : coversLogicalTime new old = true)
    (htime : old.timestamp ≤ new.timestamp) (h : x.isNewerBySequence new = true) :
    x.isNewerBySequence old = true := by
  have htimes := fun h => isNewerByTime_of_covers (x := x) hlogical htime h
  unfold coversSequence at hsequence
  unfold isNewerBySequence at h ⊢
  cases hx : x.sourcePosition <;> cases hnew : new.sourcePosition <;>
    cases hold : old.sourcePosition <;> simp only [hx, hnew, hold] at h hsequence ⊢ <;>
    grind

/-- **What covers a record keeps out what that kept out**: everything newer than
    the new record is newer than the old one. -/
theorem isNewerThan_of_covers {new old x : LastAppliedBlocklistEvent}
    (hcovers : covers new old = true) (h : x.isNewerThan new = true) :
    x.isNewerThan old = true := by
  unfold covers at hcovers
  rw [Bool.or_eq_true] at hcovers
  rcases hcovers with hversion | hsame
  -- what is newer than a higher version has that version or a higher one
  · unfold coversVersion at hversion
    unfold isNewerThan at h ⊢
    cases hx : x.version <;> cases hnew : new.version <;> cases hold : old.version <;>
      simp only [hx, hnew, hold] at h hversion ⊢ <;>
      grind
  · simp only [Bool.and_eq_true, beq_iff_eq, decide_eq_true_eq] at hsame
    obtain ⟨⟨⟨hversion, hsequence⟩, hlogical⟩, htime⟩ := hsame
    have hbelow := fun h => isNewerBySequence_of_covers (x := x) hsequence hlogical htime h
    unfold isNewerThan at h ⊢
    rw [hversion] at h
    cases hx : x.version <;> cases hold : old.version <;> simp only [hx, hold] at h ⊢ <;>
      grind

end LastAppliedBlocklistEvent

end Synvoid.BlockStore
