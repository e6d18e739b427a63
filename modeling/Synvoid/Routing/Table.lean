import Synvoid.Framework.Table
import Synvoid.Routing.NodeId

/-! # The routing table

    Model of `dht/routing/table.rs`, `bucket.rs` and `contact.rs`. A
    `RoutingTable` keeps the contacts of a node in 256 buckets of at most 20,
    each contact in the bucket of its node id.

    The stored table has the string of each contact, and not its id.
    `from_persisted` computes the id again and takes the bucket as it is stored.
-/

namespace Synvoid.Routing

open Synvoid.Framework Synvoid.Mesh

/-! ## Section 1: Contacts -/

/-- Instants are in nanoseconds. -/
structure PeerContact where
  nodeId : NodeId
  nodeIdString : String
  address : String
  port : UInt16
  latencyMs : Option UInt32
  lastSeen : Int
  lastPinged : Option Int
  isGlobal : Bool
  isTrusted : Bool
  powNonce : Option UInt64
  publicKey : Option Bytes
  deriving DecidableEq

/-- `Instant::elapsed`, which is zero for an instant to come. -/
def elapsed (now instant : Int) : Nat := (now - instant).toNat

def nanosPerSec : Nat := 1000000000

namespace PeerContact

def new (nodeId : NodeId) (nodeIdString address : String) (port : UInt16) (now : Int) :
    PeerContact :=
  { nodeId, nodeIdString, address, port
    latencyMs := none
    lastSeen := now
    lastPinged := none
    isGlobal := false
    isTrusted := false
    powNonce := none
    publicKey := none }

def markSeen (now : Int) (p : PeerContact) : PeerContact := { p with lastSeen := now }

def isStale (p : PeerContact) (now : Int) (duration : Nat) : Bool :=
  elapsed now p.lastSeen > duration

def requiresPow (p : PeerContact) : Bool := !p.isGlobal && !p.isTrusted

end PeerContact

/-- The bytes `nodeid-pow-v1:`. -/
def nodeIdPowPrefix : Bytes := asBytes "nodeid-pow-v1:"

def nodeIdPowDifficulty : Nat := 16

/-- `NodeId::verify_pow`, which does not look at the id. -/
def NodeId.verifyPow (sha256 : Sha256) (publicKey : Bytes) (nonce : UInt64) : Bool :=
  let hash := sha256.digest (nodeIdPowPrefix ++ publicKey ++ leBytes 8 nonce.toNat)
  let leadingZeros := (hash.takeWhile (· = 0)).length
  leadingZeros ≥ nodeIdPowDifficulty / 8

def PeerContact.verifyPow (sha256 : Sha256) (p : PeerContact) : Bool :=
  if p.isGlobal || p.isTrusted then true
  else
    match p.powNonce, p.publicKey with
    | some nonce, some pk => NodeId.verifyPow sha256 pk nonce
    | _, _ => false

/-! ## Section 2: Buckets -/

def kSize : Nat := 20

structure KBucket where
  index : Nat
  peers : List PeerContact
  lastUpdated : Int

inductive BucketError where
  | bucketFull
  deriving DecidableEq

/-- The first contact with an id is changed. -/
def updateFirst (nodeId : NodeId) (f : PeerContact → PeerContact) :
    List PeerContact → List PeerContact
  | [] => []
  | p :: ps => if p.nodeId = nodeId then f p :: ps else p :: updateFirst nodeId f ps

namespace KBucket

def new (index : Nat) (now : Int) : KBucket := ⟨index, [], now⟩

def get (b : KBucket) (nodeId : NodeId) : Option PeerContact :=
  b.peers.find? fun p => p.nodeId = nodeId

def contains (b : KBucket) (nodeId : NodeId) : Bool := b.peers.any fun p => p.nodeId = nodeId

def isFull (b : KBucket) : Bool := b.peers.length ≥ kSize

def getOldest (b : KBucket) : Option PeerContact := b.peers.head?

/-- A contact is put at the end, in place of the one with its id. -/
def moveToEnd (b : KBucket) (now : Int) (nodeId : NodeId) (contact : PeerContact) : KBucket :=
  { b with peers := b.peers.eraseP (fun p => p.nodeId = nodeId) ++ [contact], lastUpdated := now }

def push (b : KBucket) (now : Int) (peer : PeerContact) : KBucket :=
  { b with peers := b.peers ++ [peer], lastUpdated := now }

def insert (b : KBucket) (now : Int) (peer : PeerContact) :
    Except BucketError (Option PeerContact) × KBucket :=
  match b.get peer.nodeId with
  | some existing => (.ok none, b.moveToEnd now peer.nodeId (existing.markSeen now))
  | none =>
      if b.peers.length < kSize then (.ok none, b.push now peer)
      else (.error .bucketFull, b)

def tryInsertStaleness : Nat := 15 * 60 * nanosPerSec

def tryInsert (b : KBucket) (now : Int) (peer : PeerContact) : Option PeerContact × KBucket :=
  match b.get peer.nodeId with
  | some existing => (none, b.moveToEnd now peer.nodeId (existing.markSeen now))
  | none =>
      if b.peers.length < kSize then (none, b.push now peer)
      else
        match b.peers with
        | oldest :: rest =>
            if oldest.isStale now tryInsertStaleness then
              (some oldest, { b with peers := rest ++ [peer], lastUpdated := now })
            else (none, b)
        | [] => (none, b)

def remove (b : KBucket) (now : Int) (nodeId : NodeId) : Option PeerContact × KBucket :=
  match b.get nodeId with
  | some removed =>
      (some removed,
        { b with peers := b.peers.eraseP (fun p => p.nodeId = nodeId), lastUpdated := now })
  | none => (none, b)

def markSeen (b : KBucket) (now : Int) (nodeId : NodeId) : Bool × KBucket :=
  if b.contains nodeId then
    (true,
      { b with peers := updateFirst nodeId (PeerContact.markSeen now) b.peers, lastUpdated := now })
  else (false, b)

/-- Full, and the contact is not there: `BucketFullTargetAbsent`. -/
def forceReplace (b : KBucket) (now : Int) (contact : PeerContact) :
    Except Unit (Option PeerContact) × KBucket :=
  match b.get contact.nodeId with
  | some existing => (.ok (some existing), b.moveToEnd now contact.nodeId contact)
  | none =>
      if b.peers.length < kSize then (.ok none, b.push now contact)
      else (.error (), b)

end KBucket

/-! ## Section 3: The table -/

def defaultStaleDuration : Nat := 15 * 60 * nanosPerSec

structure RoutingTable where
  localNodeId : NodeId
  localNodeIdString : String
  buckets : Fin 256 → KBucket
  pendingPings : Table NodeId Int
  staleDuration : Nat
  closestCache : Table Nat (List PeerContact)

inductive InsertError where
  | peerNotResponsive
  | sameNodeId
  | powVerificationFailed
  deriving DecidableEq

inductive ForceRestoreContactError where
  | sameNodeId
  | bucketFullTargetAbsent
  deriving DecidableEq

namespace RoutingTable

def new (localNodeId : NodeId) (localNodeIdString : String) (now : Int) : RoutingTable :=
  { localNodeId, localNodeIdString
    buckets := fun i => .new i now
    pendingPings := ∅
    staleDuration := defaultStaleDuration
    closestCache := ∅ }

def withStaleDuration (t : RoutingTable) (duration : Nat) : RoutingTable :=
  { t with staleDuration := duration }

def setBucket (t : RoutingTable) (i : Fin 256) (b : KBucket) : RoutingTable :=
  { t with buckets := Function.update t.buckets i b }

def invalidateAll (t : RoutingTable) : RoutingTable := { t with closestCache := ∅ }

/-- The end of `insert`: there is room in the bucket. -/
def insertInto (t : RoutingTable) (now : Int) (i : Fin 256) (peer : PeerContact) :
    Except InsertError (Option PeerContact) × RoutingTable :=
  match (t.buckets i).insert now peer with
  | (.ok evicted, b) => (.ok evicted, (t.setBucket i b).invalidateAll)
  | (.error _, b) => (.ok none, t.setBucket i b)

def insert (sha256 : Sha256) (t : RoutingTable) (now : Int) (peer : PeerContact) :
    Except InsertError (Option PeerContact) × RoutingTable :=
  if peer.nodeId = t.localNodeId then (.error .sameNodeId, t)
  else if peer.requiresPow && !peer.verifyPow sha256 then (.error .powVerificationFailed, t)
  else
    let i := peer.nodeId.bucketIndex t.localNodeId
    let b := t.buckets i
    if b.contains peer.nodeId then (.ok none, t.setBucket i (b.markSeen now peer.nodeId).2)
    else if b.isFull then
      match b.getOldest with
      | some oldest =>
          if oldest.isStale now t.staleDuration then
            let (removed, b) := b.remove now oldest.nodeId
            let b := (b.insert now peer).2
            (.ok removed, (t.setBucket i b).invalidateAll)
          else
            (.error .peerNotResponsive,
              { t with pendingPings := t.pendingPings.insert oldest.nodeId now })
      | none => t.insertInto now i peer
    else t.insertInto now i peer

def tryInsert (sha256 : Sha256) (t : RoutingTable) (now : Int) (peer : PeerContact) :
    Option PeerContact × RoutingTable :=
  if peer.nodeId = t.localNodeId then (none, t)
  else if peer.requiresPow && !peer.verifyPow sha256 then (none, t)
  else
    let i := peer.nodeId.bucketIndex t.localNodeId
    let (evicted, b) := (t.buckets i).tryInsert now peer
    let t := t.setBucket i b
    (evicted, if evicted.isSome then t.invalidateAll else t)

def remove (t : RoutingTable) (now : Int) (nodeId : NodeId) : Option PeerContact × RoutingTable :=
  let i := nodeId.bucketIndex t.localNodeId
  let (removed, b) := (t.buckets i).remove now nodeId
  let t := { t.setBucket i b with pendingPings := t.pendingPings.erase nodeId }
  (removed, if removed.isSome then t.invalidateAll else t)

def markResponded (t : RoutingTable) (now : Int) (nodeId : NodeId) : RoutingTable :=
  let t := { t with pendingPings := t.pendingPings.erase nodeId }
  let i := nodeId.bucketIndex t.localNodeId
  t.setBucket i ((t.buckets i).markSeen now nodeId).2

def forceRestoreContact (t : RoutingTable) (now : Int) (contact : PeerContact) :
    Except ForceRestoreContactError Unit × RoutingTable :=
  if contact.nodeId = t.localNodeId then (.error .sameNodeId, t)
  else
    let i := contact.nodeId.bucketIndex t.localNodeId
    match (t.buckets i).forceReplace now contact with
    | (.error _, b) => (.error .bucketFullTargetAbsent, t.setBucket i b)
    | (.ok _, b) =>
        let t := (t.setBucket i b).invalidateAll
        (.ok (), { t with pendingPings := t.pendingPings.erase contact.nodeId })

def getAllContacts (t : RoutingTable) : List PeerContact :=
  (List.finRange 256).flatMap fun i => (t.buckets i).peers

end RoutingTable

/-! ## Section 4: The stored table -/

structure PersistedContact where
  nodeId : String
  address : String
  port : UInt16
  latencyMs : Option UInt32
  lastSeen : Nat
  isGlobal : Bool
  isTrusted : Bool
  powNonce : Option UInt64
  publicKey : Option Bytes
  deriving DecidableEq

structure PersistedBucket where
  index : Nat
  peers : List PersistedContact
  lastUpdated : Nat

structure PersistedRoutingTable where
  localNodeId : String
  buckets : List PersistedBucket
  lastUpdated : Nat

/-- The string is stored, and not the id. -/
def PeerContact.toPersisted (now : Int) (p : PeerContact) : PersistedContact :=
  { nodeId := p.nodeIdString
    address := p.address
    port := p.port
    latencyMs := p.latencyMs
    lastSeen := elapsed now p.lastSeen / nanosPerSec
    isGlobal := p.isGlobal
    isTrusted := p.isTrusted
    powNonce := p.powNonce
    publicKey := p.publicKey }

def PersistedContact.restore (sha256 : Sha256) (now : Int) (c : PersistedContact) : PeerContact :=
  { PeerContact.new (.fromNodeIdString sha256 c.nodeId) c.nodeId c.address c.port now with
    latencyMs := some (c.latencyMs.getD 0)
    isGlobal := c.isGlobal
    isTrusted := c.isTrusted
    lastSeen := now - (c.lastSeen * nanosPerSec : Nat)
    powNonce := c.powNonce
    publicKey := c.publicKey }

namespace RoutingTable

def toPersisted (t : RoutingTable) (now : Int) (unixNow : Nat) : PersistedRoutingTable :=
  { localNodeId := t.localNodeIdString
    buckets := (List.finRange 256).map fun i : Fin 256 =>
      { index := i.val
        peers := (t.buckets i).peers.map (PeerContact.toPersisted now)
        lastUpdated := elapsed now (t.buckets i).lastUpdated / nanosPerSec }
    lastUpdated := unixNow }

/-- The contacts of one stored bucket. -/
def restoreBucket (sha256 : Sha256) (now : Int) (t : RoutingTable) (pb : PersistedBucket) :
    RoutingTable :=
  if h : pb.index < 256 then
    pb.peers.foldl (fun t c =>
      t.setBucket ⟨pb.index, h⟩ ((t.buckets ⟨pb.index, h⟩).insert now (c.restore sha256 now)).2) t
  else t

def fromPersisted (sha256 : Sha256) (data : PersistedRoutingTable) (localNodeId : NodeId)
    (now : Int) : RoutingTable :=
  data.buckets.foldl (restoreBucket sha256 now) (.new localNodeId data.localNodeId now)

end RoutingTable

end Synvoid.Routing
