import Synvoid.Framework.RustStr

/-! # Keys of the distributed hash table

    Model of `DhtKey` (`synvoid-mesh/src/mesh/dht/keys.rs`) and of the policy
    table (`key_policy.rs`): a key is a string of fields separated by colons,
    and its kind decides who may write a record under it, which record type
    its signature names, and whether edge nodes cache it.

    A `site_scoped` key has the properties of the key inside it. The source
    asks `from_str` of the inner key again in each property; here `unscoped`
    does so once.

    Not modelled: `as_str`, `key_type` and the fields of a policy other than
    `remote_writes_allowed`, which no function of the store reads.
-/

namespace Synvoid.Mesh

open Synvoid.Framework

/-! ## Section 1: Kinds of keys -/

inductive DhtKey where
  | organization (orgId : String)
  | orgPublicKey (orgId : String)
  | tierKey (orgId keyId : String)
  | memberCertificate (orgId certId : String)
  | upstream (upstreamId : String)
  | nodeInfo (nodeId : String)
  | globalNodeList
  | orgNameReservation (name : String)
  | globalNodePublicKey (nodeId : String)
  | nodeHealth (nodeId : String)
  | nodeLoad (nodeId : String)
  | globalNodeHeartbeat (nodeId : String)
  | verifiedUpstream (upstreamId : String)
  | tierClaim (orgId : String)
  | dnsZone (zone : String)
  | dnsRecord (zone name : String)
  | dnsDomainRegistration (domain : String)
  | anycastNode (nodeId : String)
  | threatIndicator (indicatorId threatType : String)
  | upstreamImageProtection (siteId : String)
  | upstreamMinification (siteId : String)
  | upstreamCompression (siteId : String)
  | upstreamProxyCachePreferences (siteId : String)
  | siteImagePoisonConfig (siteId : String)
  | siteContentVersion (siteId : String)
  | transformedContent (siteId contentHash transformFlags : String)
  | poisonedImage (siteId originalHash : String)
  | yaraRuleContent (contentHash : String)
  | yaraCompiledRuleContent (compiledHash : String)
  | yaraRulesManifest (nodeId : String)
  | yaraChunk (contentHash : String) (index : Nat)
  | yaraCompiledChunk (compiledHash : String) (index : Nat)
  | globalNodeProof (nodeId : String)
  | nodeCapability (nodeId capability : String)
  | originReachability (upstreamId providerNodeId : String)
  | verificationTask (upstreamId providerNodeId : String)
  | originPenalty (upstreamId providerNodeId : String)
  | upstreamOwnershipChallenge (upstreamId : String)
  | genesisKeyTransition (sequence : Nat) (newKeyFingerprint announcedBy : String)
  | revokedGlobalNode (nodeId : String) (revokedAt : Nat) (reason : String)
  | capabilityAttestation (nodeId capability : String)
  | edgeAttestation (nodeId : String)
  | serverlessFunction (functionName : String)
  | behavioralFingerprint (fingerprintId : String)
  | nodeCertBinding (nodeId : String)
  | siteScoped (siteId innerKey : String)
  deriving DecidableEq, Repr

/-- `parts.join(":")`. -/
def joinColon (parts : List String) : String :=
  String.ofList ([':'].intercalate (parts.map String.toList))

/-- `s.split(':')`. -/
def splitColon (s : String) : List String := (s.toList.splitOn ':').map String.ofList

/-- `part.parse().unwrap_or(0)` for an unsigned type. -/
def parseOrZero (max : Nat) (part : String) : Nat := (parseUnsigned max part.toList).getD 0

def DhtKey.fromStr (s : String) : DhtKey :=
  let parts := splitColon s
  let part := fun i => parts.getD i ""
  let partsFrom := fun i => joinColon (parts.drop i)
  if part 0 = "org" ∧ parts.length ≥ 2 then .organization (partsFrom 1)
  else if part 0 = "org_pubkey" ∧ parts.length ≥ 2 then .orgPublicKey (partsFrom 1)
  else if part 0 = "tier_key" ∧ parts.length ≥ 3 then .tierKey (part 1) (part 2)
  else if part 0 = "member_cert" ∧ parts.length ≥ 3 then .memberCertificate (part 1) (part 2)
  else if part 0 = "upstream" ∧ parts.length ≥ 2 then .upstream (partsFrom 1)
  else if part 0 = "node_info" ∧ parts.length ≥ 2 then .nodeInfo (partsFrom 1)
  else if part 0 = "global_node_list" then .globalNodeList
  else if part 0 = "org_name_reservation" ∧ parts.length ≥ 2 then .orgNameReservation (partsFrom 1)
  else if part 0 = "global_node_pubkey" ∧ parts.length ≥ 2 then .globalNodePublicKey (partsFrom 1)
  else if part 0 = "node_health" ∧ parts.length ≥ 2 then .nodeHealth (partsFrom 1)
  else if part 0 = "node_load" ∧ parts.length ≥ 2 then .nodeLoad (partsFrom 1)
  else if part 0 = "global_node_heartbeat" ∧ parts.length ≥ 2 then
    .globalNodeHeartbeat (partsFrom 1)
  else if part 0 = "verified_upstream" ∧ parts.length ≥ 2 then .verifiedUpstream (partsFrom 1)
  else if part 0 = "tier_claim" ∧ parts.length ≥ 2 then .tierClaim (partsFrom 1)
  else if part 0 = "dns_zone" ∧ parts.length ≥ 2 then .dnsZone (partsFrom 1)
  else if part 0 = "dns_record" ∧ parts.length ≥ 3 then .dnsRecord (part 1) (part 2)
  else if part 0 = "dns_domain_reg" ∧ parts.length ≥ 2 then .dnsDomainRegistration (partsFrom 1)
  else if part 0 = "anycast_node" ∧ parts.length ≥ 2 then .anycastNode (partsFrom 1)
  else if part 0 = "threat_indicator" ∧ parts.length ≥ 3 then .threatIndicator (part 1) (part 2)
  else if part 0 = "upstream_image_protection" ∧ parts.length ≥ 2 then
    .upstreamImageProtection (partsFrom 1)
  else if part 0 = "upstream_minification" ∧ parts.length ≥ 2 then
    .upstreamMinification (partsFrom 1)
  else if part 0 = "upstream_compression" ∧ parts.length ≥ 2 then .upstreamCompression (partsFrom 1)
  else if part 0 = "upstream_proxy_cache_preferences" ∧ parts.length ≥ 2 then
    .upstreamProxyCachePreferences (partsFrom 1)
  else if part 0 = "site_image_poison_config" ∧ parts.length ≥ 2 then
    .siteImagePoisonConfig (partsFrom 1)
  else if part 0 = "site_content_version" ∧ parts.length ≥ 2 then .siteContentVersion (partsFrom 1)
  else if part 0 = "transformed" ∧ parts.length ≥ 4 then
    .transformedContent (part 1) (part 2) (part 3)
  else if part 0 = "poisoned_image" ∧ parts.length ≥ 3 then .poisonedImage (part 1) (part 2)
  else if part 0 = "yara_rule" ∧ parts.length ≥ 2 then .yaraRuleContent (part 1)
  else if part 0 = "yara_compiled_rule" ∧ parts.length ≥ 2 then .yaraCompiledRuleContent (part 1)
  else if part 0 = "yara_rules_manifest" ∧ parts.length ≥ 2 then .yaraRulesManifest (part 1)
  else if part 0 = "yara_chunk" ∧ parts.length ≥ 3 then
    .yaraChunk (part 1) (parseOrZero 4294967295 (part 2))
  else if part 0 = "yara_compiled_chunk" ∧ parts.length ≥ 3 then
    .yaraCompiledChunk (part 1) (parseOrZero 4294967295 (part 2))
  else if part 0 = "global_node_proof" ∧ parts.length ≥ 2 then .globalNodeProof (part 1)
  else if part 0 = "node_capability" ∧ parts.length ≥ 3 then .nodeCapability (part 1) (part 2)
  else if part 0 = "origin_reachability" ∧ parts.length ≥ 3 then
    .originReachability (part 1) (part 2)
  else if part 0 = "verification_task" ∧ parts.length ≥ 3 then .verificationTask (part 1) (part 2)
  else if part 0 = "origin_penalty" ∧ parts.length ≥ 3 then .originPenalty (part 1) (part 2)
  else if part 0 = "upstream_ownership_challenge" ∧ parts.length ≥ 2 then
    .upstreamOwnershipChallenge (partsFrom 1)
  else if part 0 = "genesis_key_transition" ∧ parts.length ≥ 4 then
    .genesisKeyTransition (parseOrZero 4294967295 (part 1)) (part 2) (part 3)
  else if part 0 = "revoked_global_node" ∧ parts.length ≥ 4 then
    .revokedGlobalNode (part 1) (parseOrZero 18446744073709551615 (part 2)) (partsFrom 3)
  else if part 0 = "capability_attestation" ∧ parts.length ≥ 3 then
    .capabilityAttestation (part 1) (part 2)
  else if part 0 = "edge_attestation" ∧ parts.length ≥ 2 then .edgeAttestation (part 1)
  else if part 0 = "serverless_function" ∧ parts.length ≥ 2 then .serverlessFunction (partsFrom 1)
  else if part 0 = "behavior_fingerprint" ∧ parts.length ≥ 2 then
    .behavioralFingerprint (partsFrom 1)
  else if part 0 = "node_cert_binding" ∧ parts.length ≥ 2 then .nodeCertBinding (partsFrom 1)
  else if part 0 = "site_scoped" ∧ parts.length ≥ 3 then .siteScoped (part 1) (partsFrom 2)
  else .nodeInfo s

/-! ## Section 2: Properties of a key -/

/-- Takes the site scopes off a key. -/
def DhtKey.unscopedIn : Nat → DhtKey → DhtKey
  | fuel + 1, .siteScoped _ innerKey => unscopedIn fuel (DhtKey.fromStr innerKey)
  | _, key => key

/-- An inner key is shorter than the key, so its length is fuel enough. -/
def DhtKey.unscoped : DhtKey → DhtKey
  | .siteScoped _ innerKey => DhtKey.unscopedIn innerKey.length (DhtKey.fromStr innerKey)
  | key => key

inductive RecordAuthority where
  | raftGlobal
  | signedFeed
  | nodeSelf
  | ephemeralTelemetry
  | contentAddressedCache
  | publicCache
  deriving DecidableEq, Repr

inductive SignedRecordType where
  | organization
  | orgPublicKey
  | tierKey
  | memberCertificate
  | upstream
  | nodeInfo
  | globalNodeList
  | tierClaim
  | globalNodePublicKey
  | nodeHealth
  | nodeLoad
  | globalNodeHeartbeat
  | verifiedUpstream
  | orgNameReservation
  | dnsZone
  | dnsRecord
  | dnsDomainRegistration
  | globalAiBotList
  | anycastNode
  | threatIndicator
  | upstreamImageProtection
  | upstreamMinification
  | upstreamCompression
  | upstreamProxyCachePreferences
  | siteImagePoisonConfig
  | yaraRuleContent
  | yaraCompiledRuleContent
  | yaraRulesManifest
  | globalNodeProof
  | genesisKeyTransition
  | revokedGlobalNode
  | nodeCertBinding
  deriving DecidableEq, Repr

def DhtKey.isPrivileged (key : DhtKey) : Bool :=
  match key.unscoped with
  | .organization _ | .orgPublicKey _ | .tierKey _ _ | .memberCertificate _ _ | .globalNodeList
  | .orgNameReservation _ | .dnsZone _ | .dnsRecord _ _ | .dnsDomainRegistration _
  | .anycastNode _ => true
  | _ => false

def DhtKey.isPublic (key : DhtKey) : Bool :=
  match key.unscoped with
  | .upstream _ | .nodeInfo _ | .globalNodePublicKey _ | .nodeHealth _ | .nodeLoad _
  | .globalNodeHeartbeat _ | .verifiedUpstream _ | .tierClaim _ | .dnsZone _ | .dnsRecord _ _
  | .anycastNode _ | .threatIndicator _ _ | .transformedContent _ _ _ | .poisonedImage _ _
  | .siteImagePoisonConfig _ | .siteContentVersion _ | .yaraRuleContent _ | .yaraRulesManifest _
  | .yaraChunk _ _ | .nodeCapability _ _ | .capabilityAttestation _ _ | .edgeAttestation _
  | .originReachability _ _ | .originPenalty _ _ | .upstreamOwnershipChallenge _
  | .genesisKeyTransition _ _ _ | .revokedGlobalNode _ _ _ | .serverlessFunction _
  | .upstreamProxyCachePreferences _ | .orgPublicKey _ | .behavioralFingerprint _
  | .nodeCertBinding _ => true
  | _ => false

def DhtKey.requiresConfirmation (key : DhtKey) : Bool :=
  match key.unscoped with
  | .tierKey _ _ | .organization _ | .orgPublicKey _ | .upstream _ | .orgNameReservation _ => true
  | _ => false

/-- The last case is that of a scope left over, which `unscoped` never
    returns. -/
def DhtKey.authority (key : DhtKey) : RecordAuthority :=
  match key.unscoped with
  | .organization _ | .orgPublicKey _ | .tierKey _ _ | .memberCertificate _ _ | .globalNodeList
  | .orgNameReservation _ | .verifiedUpstream _ | .tierClaim _ | .dnsDomainRegistration _
  | .genesisKeyTransition _ _ _ | .revokedGlobalNode _ _ _ | .globalNodeProof _
  | .nodeCertBinding _ => .raftGlobal
  | .nodeHealth _ | .nodeLoad _ | .globalNodeHeartbeat _ | .capabilityAttestation _ _
  | .edgeAttestation _ => .nodeSelf
  | .threatIndicator _ _ | .yaraRulesManifest _ | .yaraRuleContent _ | .yaraChunk _ _
  | .yaraCompiledRuleContent _ | .yaraCompiledChunk _ _ => .signedFeed
  | .transformedContent _ _ _ | .poisonedImage _ _ => .contentAddressedCache
  | .nodeInfo _ | .globalNodePublicKey _ | .nodeCapability _ _ | .originReachability _ _
  | .verificationTask _ _ | .originPenalty _ _ => .ephemeralTelemetry
  | .upstream _ | .dnsZone _ | .dnsRecord _ _ | .anycastNode _ | .upstreamImageProtection _
  | .upstreamMinification _ | .upstreamCompression _ | .upstreamProxyCachePreferences _
  | .siteImagePoisonConfig _ | .siteContentVersion _ | .upstreamOwnershipChallenge _
  | .serverlessFunction _ | .behavioralFingerprint _ => .publicCache
  | .siteScoped _ _ => .publicCache

def DhtKey.isRaftGlobal (key : DhtKey) : Bool := key.authority = .raftGlobal

def DhtKey.isSelfRecord (key : DhtKey) (nodeId : String) : Bool :=
  match key.unscoped with
  | .nodeHealth nid | .nodeLoad nid | .globalNodeHeartbeat nid | .nodeInfo nid => nid = nodeId
  | _ => false

def DhtKey.toSignedRecordType (key : DhtKey) : Option SignedRecordType :=
  match key.unscoped with
  | .organization _ => some .organization
  | .orgPublicKey _ => some .orgPublicKey
  | .tierKey _ _ => some .tierKey
  | .memberCertificate _ _ => some .memberCertificate
  | .upstream _ => some .upstream
  | .nodeInfo _ => some .nodeInfo
  | .globalNodeList => some .globalNodeList
  | .orgNameReservation _ => some .orgNameReservation
  | .globalNodePublicKey _ => some .globalNodePublicKey
  | .nodeHealth _ => some .nodeHealth
  | .nodeLoad _ => some .nodeLoad
  | .globalNodeHeartbeat _ => some .globalNodeHeartbeat
  | .verifiedUpstream _ => some .verifiedUpstream
  | .tierClaim _ => some .tierClaim
  | .dnsZone _ => some .dnsZone
  | .dnsRecord _ _ => some .dnsRecord
  | .dnsDomainRegistration _ => some .dnsDomainRegistration
  | .anycastNode _ => some .anycastNode
  | .threatIndicator _ _ => some .threatIndicator
  | .upstreamImageProtection _ => some .upstreamImageProtection
  | .upstreamMinification _ => some .upstreamMinification
  | .upstreamCompression _ => some .upstreamCompression
  | .upstreamProxyCachePreferences _ => some .upstreamProxyCachePreferences
  | .siteImagePoisonConfig _ => some .siteImagePoisonConfig
  | .yaraRuleContent _ => some .yaraRuleContent
  | .yaraCompiledRuleContent _ => some .yaraCompiledRuleContent
  | .yaraRulesManifest _ => some .yaraRulesManifest
  | .globalNodeProof _ => some .globalNodeProof
  | .genesisKeyTransition _ _ _ => some .genesisKeyTransition
  | .revokedGlobalNode _ _ _ => some .revokedGlobalNode
  | .nodeCertBinding _ => some .nodeCertBinding
  | _ => none

/-- `DhtKeyPolicyTable::policy_for_key(key).remote_writes_allowed`: always
    allowed under a site scope. -/
def DhtKey.remoteWritesAllowed : DhtKey → Bool
  | .siteScoped _ _ => true
  | .organization _ | .orgPublicKey _ | .tierKey _ _ | .memberCertificate _ _ | .globalNodeList
  | .orgNameReservation _ | .verifiedUpstream _ | .tierClaim _ | .dnsDomainRegistration _
  | .globalNodeProof _ | .nodeCertBinding _ | .genesisKeyTransition _ _ _
  | .revokedGlobalNode _ _ _ | .dnsZone _ => false
  | _ => true

/-- The record types that are never replaced. -/
def SignedRecordType.isImmutable : SignedRecordType → Bool
  | .genesisKeyTransition | .revokedGlobalNode | .yaraRulesManifest | .yaraRuleContent => true
  | _ => false

example : (DhtKey.fromStr "site_scoped:a:site_scoped:b:org:c").unscoped = .organization "c" := by
  decide +kernel

end Synvoid.Mesh
