import Synvoid.Mesh.HybridSignature
import Synvoid.Mesh.DhtKey

/-! # Records and their signatures

    Model of `DhtRecord` (`synvoid-mesh/src/mesh/protocol.rs`) and of the
    signature checks in `dht/signed.rs`. The hash function, the serializer
    (postcard) and the signature schemes are parameters; the serializer may
    fail, and then the content to sign is empty.

    Timestamps and lifetimes are 64-bit; additions saturate or wrap as the
    source writes them.
-/

namespace Synvoid.Mesh

open Synvoid.Framework

/-! ## Section 1: Data model -/

structure QuorumSignatureProto where
  nodeId : String
  signature : Bytes
  timestamp : Nat
  signerPublicKey : Option String
  deriving DecidableEq

structure DhtRecord where
  key : String
  value : Bytes
  timestamp : Nat
  sequenceNumber : Nat
  ttlSeconds : Nat
  sourceNodeId : String
  signature : Bytes
  signerPublicKey : Option String
  contentHash : Bytes
  quorumProof : List QuorumSignatureProto
  requestId : Option String
  deriving DecidableEq

/-- What a record's signature is made over. -/
structure DhtRecordSignable where
  key : String
  valueHash : Bytes
  sourceNodeId : String
  timestamp : Nat
  ttlSeconds : Nat
  sequenceNumber : Nat
  recordType : String
  deriving DecidableEq

/-- What a quorum signature is made over. -/
structure QuorumProofSignable where
  requestId : String
  key : String
  valueHash : Bytes
  ttlSeconds : Nat
  sequenceNumber : Nat
  originNodeId : String
  action : String
  protocolVersion : String
  deriving DecidableEq

/-- The functions of other packages that the checks call. -/
structure Primitives where
  sha256 : Bytes → Bytes
  serializeRecord : DhtRecordSignable → Option Bytes
  serializeQuorumProof : QuorumProofSignable → Option Bytes
  base64Decode : Base64Decode
  schemes : SignatureSchemes

/-! ### 64-bit arithmetic -/

def u64Max : Nat := 18446744073709551615

/-- `u64::saturating_add`. -/
def saturatingAdd (a b : Nat) : Nat := min (a + b) u64Max

/-- Addition of `u64` in a release build. -/
def wrappingAdd (a b : Nat) : Nat := (a + b) % 18446744073709551616

/-- `n as i64` of a `u64`. -/
def asI64 (n : Nat) : Int := if n < 9223372036854775808 then n else n - 18446744073709551616

/-- `i64::saturating_sub`. -/
def saturatingSubI64 (a b : Int) : Int :=
  max (-9223372036854775808) (min 9223372036854775807 (a - b))

/-! ## Section 2: Checks on a record -/

/-- `validate_record_timestamp`: at most 300 seconds in the future. -/
def validateRecordTimestamp (timestamp now : Nat) : Bool :=
  saturatingSubI64 (asI64 timestamp) (asI64 now) ≤ 300

def DhtRecord.isExpired (record : DhtRecord) (now : Nat) : Bool :=
  now > saturatingAdd record.timestamp record.ttlSeconds

/-- The text that stands for the record type in what is signed. -/
def SignedRecordType.name : SignedRecordType → String
  | .organization => "Organization"
  | .orgPublicKey => "OrgPublicKey"
  | .tierKey => "TierKey"
  | .memberCertificate => "MemberCertificate"
  | .upstream => "Upstream"
  | .nodeInfo => "NodeInfo"
  | .globalNodeList => "GlobalNodeList"
  | .tierClaim => "TierClaim"
  | .globalNodePublicKey => "GlobalNodePublicKey"
  | .nodeHealth => "NodeHealth"
  | .nodeLoad => "NodeLoad"
  | .globalNodeHeartbeat => "GlobalNodeHeartbeat"
  | .verifiedUpstream => "VerifiedUpstream"
  | .orgNameReservation => "OrgNameReservation"
  | .dnsZone => "DnsZone"
  | .dnsRecord => "DnsRecord"
  | .dnsDomainRegistration => "DnsDomainRegistration"
  | .globalAiBotList => "GlobalAiBotList"
  | .anycastNode => "AnycastNode"
  | .threatIndicator => "ThreatIndicator"
  | .upstreamImageProtection => "UpstreamImageProtection"
  | .upstreamMinification => "UpstreamMinification"
  | .upstreamCompression => "UpstreamCompression"
  | .upstreamProxyCachePreferences => "UpstreamProxyCachePreferences"
  | .siteImagePoisonConfig => "SiteImagePoisonConfig"
  | .yaraRuleContent => "YaraRuleContent"
  | .yaraCompiledRuleContent => "YaraCompiledRuleContent"
  | .yaraRulesManifest => "YaraRulesManifest"
  | .globalNodeProof => "GlobalNodeProof"
  | .genesisKeyTransition => "GenesisKeyTransition"
  | .revokedGlobalNode => "RevokedGlobalNode"
  | .nodeCertBinding => "NodeCertBinding"

/-- `SignedRecordType::default_ttl`, in seconds. -/
def SignedRecordType.defaultTtl : SignedRecordType → Nat
  | .nodeHealth | .nodeLoad => 60
  | .globalNodeHeartbeat => 90
  | .upstream | .verifiedUpstream | .dnsRecord => 300
  | .dnsDomainRegistration | .anycastNode => 600
  | .nodeInfo | .globalNodeList | .dnsZone | .threatIndicator | .upstreamImageProtection
  | .upstreamMinification | .upstreamCompression | .upstreamProxyCachePreferences
  | .siteImagePoisonConfig | .yaraRuleContent | .yaraCompiledRuleContent
  | .yaraRulesManifest => 3600
  | .tierClaim | .globalNodePublicKey | .globalAiBotList | .genesisKeyTransition
  | .nodeCertBinding => 86400
  | .organization | .orgNameReservation | .revokedGlobalNode => 604800
  | .orgPublicKey | .tierKey | .globalNodeProof => 2592000
  | .memberCertificate => 31536000

/-- The fields of `SignedDhtRecord` that are signed. -/
structure SignedDhtRecord where
  key : String
  value : Bytes
  createdAt : Nat
  recordType : SignedRecordType
  sequenceNumber : Nat
  sourceNodeId : String
  ttlSeconds : Nat

/-- `SignedDhtRecord::new`. -/
def SignedDhtRecord.new (key : String) (value : Bytes) (publisherId : String)
    (recordType : SignedRecordType) (now : Nat) : SignedDhtRecord :=
  { key, value
    createdAt := now
    recordType
    sequenceNumber := 1
    sourceNodeId := publisherId
    ttlSeconds := recordType.defaultTtl }

/-- The record type that a key's signature names. -/
def recordTypeOfKey (key : String) : SignedRecordType :=
  (DhtKey.fromStr key).toSignedRecordType.getD .nodeInfo

/-- The record as it was signed, with a given record type. -/
def DhtRecord.toSigned (record : DhtRecord) (recordType : SignedRecordType) : SignedDhtRecord :=
  { key := record.key
    value := record.value
    createdAt := record.timestamp
    recordType
    sequenceNumber := record.sequenceNumber
    sourceNodeId := record.sourceNodeId
    ttlSeconds := record.ttlSeconds }

def dhtRecordToSignedRecord (record : DhtRecord) : SignedDhtRecord :=
  record.toSigned (recordTypeOfKey record.key)

section checks
variable (prim : Primitives)

def DhtRecord.computeContentHash (record : DhtRecord) : Bytes := prim.sha256 record.value

/-- No content hash is a valid one. -/
def DhtRecord.verifyContentHash (record : DhtRecord) : Bool :=
  if record.contentHash.isEmpty then true
  else record.computeContentHash prim = record.contentHash

def SignedDhtRecord.getSignableContent (record : SignedDhtRecord) : Bytes :=
  (prim.serializeRecord
    { key := record.key
      valueHash := prim.sha256 record.value
      sourceNodeId := record.sourceNodeId
      timestamp := record.createdAt
      ttlSeconds := record.ttlSeconds
      sequenceNumber := record.sequenceNumber
      recordType := record.recordType.name }).getD []

/-- The common part of the two functions below. -/
def verifySignedBy (record : DhtRecord) (signed : SignedDhtRecord) : Bool :=
  if record.signature.isEmpty then false
  else
    match record.signerPublicKey with
    | none => false
    | some signerPublicKey =>
        if signerPublicKey.isEmpty then false
        else
          match prim.base64Decode signerPublicKey with
          | none => false
          | some pkBytes =>
              verifyAuto prim.base64Decode prim.schemes (signed.getSignableContent prim)
                record.signature pkBytes

def verifyDhtRecordSignature (record : DhtRecord) : Bool :=
  verifySignedBy prim record (dhtRecordToSignedRecord record)

def verifyDhtRecordSignatureForKey (record : DhtRecord) (expectedRecordType : SignedRecordType) :
    Bool :=
  verifySignedBy prim record (record.toSigned expectedRecordType)

def quorumProofProtocolVersion : String := "synvoid:dht-quorum:v1"

def getQuorumProofSignableContent (requestId : String) (record : DhtRecord) (action : String) :
    Bytes :=
  (prim.serializeQuorumProof
    { requestId
      key := record.key
      valueHash := record.computeContentHash prim
      ttlSeconds := record.ttlSeconds
      sequenceNumber := record.sequenceNumber
      originNodeId := record.sourceNodeId
      action
      protocolVersion := quorumProofProtocolVersion }).getD []

end checks

/-! ### Concrete primitives

    The postcard format of the two contents (integers as base-128 varints,
    texts and bytes with their length in front), and SHA-256 of the empty
    value. Used where concrete primitives are needed. -/

def varint : Nat → Nat → Bytes
  | 0, _ => []
  | fuel + 1, n =>
      if n < 128 then [UInt8.ofNat n] else UInt8.ofNat (n % 128 + 128) :: varint fuel (n / 128)

def postcardU64 (n : Nat) : Bytes := varint 10 n

def postcardBytes (bytes : Bytes) : Bytes := postcardU64 bytes.length ++ bytes

def postcardStr (s : String) : Bytes := postcardBytes (asBytes s)

def postcardRecord (r : DhtRecordSignable) : Bytes :=
  postcardStr r.key ++ postcardBytes r.valueHash ++ postcardStr r.sourceNodeId ++
    postcardU64 r.timestamp ++ postcardU64 r.ttlSeconds ++ postcardU64 r.sequenceNumber ++
    postcardStr r.recordType

def postcardQuorumProof (q : QuorumProofSignable) : Bytes :=
  postcardStr q.requestId ++ postcardStr q.key ++ postcardBytes q.valueHash ++
    postcardU64 q.ttlSeconds ++ postcardU64 q.sequenceNumber ++ postcardStr q.originNodeId ++
    postcardStr q.action ++ postcardStr q.protocolVersion

def sha256OfEmpty : Bytes :=
  [227, 176, 196, 66, 152, 252, 28, 20, 154, 251, 244, 200, 153, 111, 185, 36, 39, 174, 65,
    228, 100, 155, 147, 76, 164, 149, 153, 27, 120, 82, 184, 85]

/-- Primitives for records with an empty value, and given signature schemes. -/
def emptyValuePrimitives (schemes : SignatureSchemes) : Primitives :=
  { sha256 := fun value => if value.isEmpty then sha256OfEmpty else []
    serializeRecord := fun r => some (postcardRecord r)
    serializeQuorumProof := fun q => some (postcardQuorumProof q)
    base64Decode := urlSafeNoPadDecode
    schemes }

def acceptAllPrimitives : Primitives := emptyValuePrimitives acceptAll

end Synvoid.Mesh
