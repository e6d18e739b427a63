import Synvoid.Dns.QueryResponse
import Synvoid.Dns.ZoneUpdate

/-! # Zone transfers

    Model of `synvoid-dns/src/transfer.rs`: who may transfer a zone, the full
    transfer (AXFR) and the incremental one (IXFR), and the encoder that both
    use (`build_axfr_record`). It is not the encoder of answers: each record
    type's RDLENGTH and RDATA are written here again.

    Networks and Unicode upper case are parameters. Logging and the cache
    invalidation after a transfer are left out.
-/

namespace Synvoid.Dns

open Synvoid.Framework

def ixfrQueryType : UInt16 := 251

/-- `serial_is_newer`: serial arithmetic. -/
def serialIsNewer (a b : UInt32) : Bool :=
  let delta := a - b
  delta != 0 && delta < 0x80000000

/-! ## Section 1: The encoder -/

/-- `RecordTypeExt::to_u16`: zero for the types it does not list. -/
def RecordType.toU16 : RecordType → UInt16
  | .a => 1 | .ns => 2 | .cname => 5 | .soa => 6 | .ptr => 12 | .mx => 15 | .txt => 16
  | .aaaa => 28 | .dnskey => 48 | .rrsig => 46 | .nsec => 47 | .nsec3 => 50 | .nsec3param => 51
  | .ds => 43 | .opt => 41
  | .other 59 => 59 | .other 60 => 60 | .other 33 => 33 | .other 255 => 255
  | _ => 0

/-- RDATA behind its length. -/
def withLength (rdata : Bytes) : Bytes := u16ToBe (UInt16.ofNat rdata.length) ++ rdata

/-- The labels of a name value, without a zero byte behind them. -/
def encodeTargetParts (value : Str) : Bytes := encodeLabels (nameParts value)

/-- The types that the bitmap of an NSEC record can hold. -/
def bitmapTypes : List (String × UInt16) :=
  [("A", 1), ("AAAA", 28), ("CNAME", 5), ("NS", 2), ("SOA", 6), ("TXT", 16), ("MX", 15),
    ("SRV", 33), ("PTR", 12), ("DNSKEY", 48), ("RRSIG", 46), ("NSEC", 47), ("NSEC3", 50),
    ("DS", 43), ("CAA", 257)]

structure NsecBitmap where
  bitmap : Bytes
  currentWindow : UInt8
  blockBits : Bytes

namespace NsecBitmap

/-- A block that has bytes is written behind its window and its length. -/
def flush (b : NsecBitmap) : Bytes :=
  if b.blockBits = [] then b.bitmap
  else b.bitmap ++ [b.currentWindow, UInt8.ofNat b.blockBits.length] ++ b.blockBits

/-- One type. A block is made when the window changes, so the window that is there at the start
    has none. -/
def add (b : NsecBitmap) (typeVal : UInt16) : NsecBitmap :=
  let windowByte := (typeVal >>> 8).toUInt8
  let byteIdx := (typeVal.toNat % 256) / 8
  let b := if windowByte ≠ b.currentWindow then
      ⟨b.flush, windowByte, List.replicate (byteIdx + 1) 0⟩ else b
  let bit := UInt8.ofNat (2 ^ (7 - typeVal.toNat % 8))
  { b with blockBits := b.blockBits.modify byteIdx (· ||| bit) }

end NsecBitmap

def encodeNsecBitmap (toUppercase : Str → Str) (types : List Str) : Bytes :=
  let typeVals := types.filterMap fun text => bitmapTypes.lookup (String.ofList (toUppercase text))
  (typeVals.foldl NsecBitmap.add ⟨[], 0, []⟩).flush

/-- What another crate and the Unicode tables provide. -/
structure TransferExternals extends Externals where
  toUppercase : Str → Str

section encoder

variable (lib : TransferExternals)

/-- RDLENGTH and RDATA of a record, the `match` of `build_axfr_record`; nothing if the value
    does not parse or the type is not known. -/
def axfrRdata (record : DnsZoneRecord) : Bytes :=
  match record.recordType with
  -- the length of an address is written as two
  | .a => ((parseIpv4 record.value).map fun octets => u16ToBe 2 ++ octets).getD []
  | .aaaa => ((parseIpv6 record.value).map fun octets => u16ToBe 16 ++ octets).getD []
  | .cname | .ns | .soa | .ptr => withLength (encodeTargetParts record.value)
  | .txt =>
      let txt := utf8 record.value
      withLength (if txt = [] then [0] else txtChunks txt.length txt)
  -- the length is that of a 16-bit priority, which is written with 32 bits
  | .mx => u16ToBe 2 ++ u32ToBe (record.priority.getD 10) ++ encodeTargetParts record.value
  | .other 33 =>
      match splitWhitespace record.value with
      | priority :: weight :: port :: target :: _ =>
          u16ToBe 6 ++ u16ToBe ((parseU16 priority).getD 0) ++ u16ToBe ((parseU16 weight).getD 0) ++
            u16ToBe ((parseU16 port).getD 0) ++ encodeTargetParts target
      | _ => []
  | .dnskey | .rrsig | .nsec3 | .ds =>
      ((lib.hexDecode record.value).map withLength).getD []
  | .nsec =>
      match splitWhitespace record.value with
      | [] => []
      | [nextDomain] => withLength (encodeTargetParts nextDomain ++ [0])
      | nextDomain :: types =>
          withLength (encodeTargetParts nextDomain ++ encodeNsecBitmap lib.toUppercase types)
  | .caa =>
      match splitn ' ' 3 record.value with
      | [flags, tag, value] =>
          withLength ((parseU8 flags).getD 0 :: encodeLabel tag ++ utf8 (trimMatches '"' value))
      | _ => withLength (0 :: encodeLabel record.value)
  | _ => []

/-- One resource record under a name. -/
def axfrRr (qname : Str) (record : DnsZoneRecord) : Bytes :=
  encodeName qname ++ u16ToBe record.recordType.toU16 ++ u16ToBe 1 ++ u32ToBe record.ttl ++
    axfrRdata lib record

/-- Identifier, flags, one question and the counts. -/
def transferHeader (messageId : UInt16) (authoritative : Bool) (ancount : UInt16) : Bytes :=
  u16ToBe messageId ++ u16ToBe (buildResponseFlags authoritative false true false false 0) ++
    u16ToBe 1 ++ u16ToBe ancount ++ u16ToBe 0 ++ u16ToBe 0

def transferQuestion (qname : Str) (qtype : UInt16) : Bytes :=
  encodeName qname ++ u16ToBe qtype ++ u16ToBe 1

def buildAxfrRecord (qname : Str) (recordType : RecordType) (records : List DnsZoneRecord)
    (messageId : UInt16) : Bytes :=
  transferHeader messageId (recordType = .soa) (UInt16.ofNat records.length) ++
    transferQuestion qname recordType.toU16 ++ records.flatMap (axfrRr lib qname)

end encoder

/-- `build_soa_rdata`: the SOA of incremental transfers; a field that is not a number has a
    default. -/
def buildSoaRdata (soaValue : Str) : Bytes :=
  match splitWhitespace soaValue with
  | mname :: rname :: serial :: refresh :: retry :: expire :: minimum :: _ =>
      encodeLabels (labels mname) ++ [0] ++ encodeLabels (labels rname) ++ [0] ++
        u32ToBe ((parseU32 serial).getD 1) ++ u32ToBe ((parseU32 refresh).getD 3600) ++
        u32ToBe ((parseU32 retry).getD 600) ++ u32ToBe ((parseU32 expire).getD 86400) ++
        u32ToBe ((parseU32 minimum).getD 3600)
  | _ => []

def findSoaRecord (zone : Zone) : Option DnsZoneRecord :=
  (zone.records.lookup (apex, .soa)).bind List.head?

/-! ## Section 2: Full transfers -/

section builders

variable (lib : TransferExternals) (messageId : UInt16)

/-- A message for each RRset but the SOA. -/
def axfrRecordMessages (origin : Str) (records : ZoneRecords) : List Bytes :=
  (records.entries.filter fun entry => entry.1.2 ≠ .soa).map fun entry =>
    buildAxfrRecord lib (fullName origin entry.1.1) entry.1.2 entry.2 messageId

/-- The messages of an AXFR: the SOA record first and last, if the zone has one. -/
def axfrMessages (qname origin : Str) (zone : Zone) : List Bytes :=
  let soaMessage := (findSoaRecord zone).toList.map fun soa =>
    buildAxfrRecord lib qname .soa [soa] messageId
  soaMessage ++ axfrRecordMessages lib messageId origin zone.records ++ soaMessage

/-! ## Section 3: Incremental transfers -/

/-- The SOA record of a message of an IXFR. -/
def ixfrSoa (qname : Str) (soa : DnsZoneRecord) : Bytes :=
  encodeName qname ++ u16ToBe 6 ++ u16ToBe 1 ++ u32ToBe soa.ttl ++
    withLength (buildSoaRdata soa.value)

/-- An AXFR message without its header is put in for each record, so its question is there as
    well. -/
def buildIxfrMessage (qname : Str) (soa : Option DnsZoneRecord)
    (records : List ((Str × RecordType) × List DnsZoneRecord)) (ancount : UInt16) : Bytes :=
  transferHeader messageId true ancount ++ transferQuestion qname ixfrQueryType ++
    (soa.map (ixfrSoa qname)).getD [] ++
    records.flatMap fun (key, recs) => recs.flatMap fun record =>
      (buildAxfrRecord lib (fullName qname key.1) record.recordType [record] messageId).drop 12

def noSoaError : Str := "Zone has no SOA record".toList

def buildIxfrCurrentResponse (qname : Str) (zone : Zone) : Except Str Bytes :=
  match findSoaRecord zone with
  | none => .error noSoaError
  | some soa => .ok (transferHeader messageId true 1 ++ transferQuestion qname ixfrQueryType ++
      ixfrSoa qname soa)

def buildIxfrFullResponseMessages (qname : Str) (zone : Zone) : Except Str (List Bytes) :=
  match findSoaRecord zone with
  | none => .error noSoaError
  | some _ => .ok (axfrMessages lib messageId qname zone.origin zone)

/-- Whether two versions of an RRset count as different. The priority is not compared. -/
def rrsetDiffers (old new : List DnsZoneRecord) : Bool :=
  old.length ≠ new.length || (old.zip new).any fun (a, b) => a.value ≠ b.value || a.ttl ≠ b.ttl

/-- The keys of both versions. -/
def allKeys (old new : ZoneRecords) : List (Str × RecordType) :=
  old.keys ++ new.keys.filter fun key => (old.lookup key).isNone

/-- The RRsets of the old version that are gone or differ. -/
def toDelete (old new : ZoneRecords) : List ((Str × RecordType) × List DnsZoneRecord) :=
  (allKeys old new).filterMap fun key =>
    match old.lookup key, new.lookup key with
    | some oldRecs, none => some (key, oldRecs)
    | some oldRecs, some newRecs =>
      if rrsetDiffers oldRecs newRecs then some (key, oldRecs) else none
    | none, _ => none

/-- The RRsets of the new version that are new or differ. -/
def toAdd (old new : ZoneRecords) : List ((Str × RecordType) × List DnsZoneRecord) :=
  (allKeys old new).filterMap fun key =>
    match old.lookup key, new.lookup key with
    | none, some newRecs => some (key, newRecs)
    | some oldRecs, some newRecs =>
      if rrsetDiffers oldRecs newRecs then some (key, newRecs) else none
    | _, none => none

/-- The counts are those of RRsets. -/
def buildIxfrIncrementalResponseMessages (qname : Str) (zone : Zone) (oldRecords : ZoneRecords) :
    Except Str (List Bytes) :=
  match findSoaRecord zone with
  | none => .error noSoaError
  | some currentSoa =>
      let oldSoa := (oldRecords.lookup (apex, .soa)).bind List.head?
      let deleted := toDelete oldRecords zone.records
      let added := toAdd oldRecords zone.records
      .ok [buildIxfrMessage lib messageId qname oldSoa deleted (UInt16.ofNat (1 + deleted.length)),
        buildIxfrMessage lib messageId qname (some currentSoa) added
          (UInt16.ofNat (added.length + 1))]

end builders

/-! ## Section 4: The requests -/

structure ZoneTransfer where
  allowedTransfers : List Str
  tsigVerifier : Option TsigKeys
  allowWildcardTransfer : Bool
  wildcardTransferRequiresTsig : Bool
  requireTsig : Bool
  ixfrEnabled : Bool
  ixfrFallbackToAxfr : Bool
  axfrEnabled : Bool
  tcpOnly : Bool

/-- What a request reads besides its message. -/
structure TransferEnvironment where
  lib : TransferExternals
  hmac : Hmac
  sha256 : Bytes → Bytes
  /-- Whether a text is a network that contains the client's address. -/
  networkContains : Str → Bool
  zones : Table Str VersionedZone
  cache : ReplayCache
  clock : ClockReads
  /-- The clock when the response at this position is signed. -/
  signedAt : Nat → UInt64

/-- The arguments of a request. -/
structure TransferRequest where
  qname : Str
  tsig : Option TsigParseResult
  messageId : UInt16
  message : Bytes

namespace ZoneTransfer

variable (transfer : ZoneTransfer) (env : TransferEnvironment)

def isTransferAllowed (origin : Str) : Bool :=
  transfer.allowedTransfers.any fun allowed =>
    if allowed = ['*'] then transfer.allowWildcardTransfer
    else env.networkContains allowed || allowed = origin

def isWildcardTransfer : Bool := transfer.allowedTransfers.any fun allowed => allowed = ['*']

def transferRequiresTsig : Str := "Zone transfer requires TSIG authentication".toList

/-- The checks that AXFR and IXFR share: the client's address, and the TSIG record, which is
    verified only if there is a verifier. -/
def checkAccess (request : TransferRequest) : Except Str Unit :=
  let origin := trimEndMatches '.' request.qname
  if !transfer.isTransferAllowed env origin then .error "Zone transfer not allowed".toList
  else if transfer.isWildcardTransfer && transfer.wildcardTransferRequiresTsig &&
      request.tsig.isNone then .error transferRequiresTsig
  else if transfer.requireTsig && request.tsig.isNone then .error transferRequiresTsig
  else
    match request.tsig, transfer.tsigVerifier with
    | some tsig, some keys =>
        match (verify env.hmac env.sha256 keys env.cache env.clock request.message tsig).1 with
        | .error e => .error ("TSIG verification failed: ".toList ++ e.toStr)
        | .ok () => .ok ()
    | _, _ => .ok ()

/-- The zone of a request. -/
def requestedZone (request : TransferRequest) : Except Str VersionedZone :=
  match env.zones.lookup (trimEndMatches '.' request.qname) with
  | none => .error "Zone not found".toList
  | some zone => .ok zone

/-- Each response is signed if there are a key and a verifier. -/
def signResponses (request : TransferRequest) (responses : List Bytes) :
    Checked (Except Str (List Bytes)) :=
  match request.tsig, transfer.tsigVerifier with
  | some tsig, some keys => do
      let signed ← (responses.zipIdx.mapM fun (response, i) =>
        appendTsigToResponse env.hmac (some keys) (env.signedAt i) response tsig.keyName)
      return signed.mapM id
  | _, _ => return .ok responses

/-- `handle_axfr_request_messages`. -/
def handleAxfrRequestMessages (request : TransferRequest) (isTcp : Bool) :
    Checked (Except Str (List Bytes)) :=
  if !transfer.axfrEnabled then return .error "AXFR not enabled".toList
  else if transfer.tcpOnly && !isTcp then return .error "AXFR requires TCP transport".toList
  else
    match (transfer.checkAccess env request).bind fun () => requestedZone env request with
    | .error e => return .error e
    | .ok zone =>
        transfer.signResponses env request
          (axfrMessages env.lib request.messageId request.qname
            (trimEndMatches '.' request.qname) zone.toZone)

/-- The responses of an IXFR, before they are signed. -/
def ixfrResponses (request : TransferRequest) (zone : VersionedZone) (serial : Option UInt32) :
    Except Str (List Bytes) :=
  let clientSerial := serial.getD 0
  let full := buildIxfrFullResponseMessages env.lib request.messageId request.qname zone.toZone
  if clientSerial = zone.serial then
    (buildIxfrCurrentResponse request.messageId request.qname zone.toZone).map fun response =>
      [response]
  else if clientSerial = 0 || serialIsNewer clientSerial zone.serial then
    if transfer.ixfrFallbackToAxfr then full
    else .error "IXFR cannot proceed: client has newer serial".toList
  else
    match zone.getPreviousVersion clientSerial with
    | some oldVersion =>
        buildIxfrIncrementalResponseMessages env.lib request.messageId request.qname zone.toZone
          oldVersion.records
    | none =>
        if transfer.ixfrFallbackToAxfr then full
        else .error "IXFR cannot proceed: no history available".toList

/-- `handle_ixfr_request_messages`. -/
def handleIxfrRequestMessages (request : TransferRequest) (serial : Option UInt32) :
    Checked (Except Str (List Bytes)) :=
  if !transfer.ixfrEnabled then return .error "IXFR not enabled".toList
  else
    match (transfer.checkAccess env request).bind fun () =>
        (requestedZone env request).bind fun zone =>
          transfer.ixfrResponses env request zone serial with
    | .error e => return .error e
    | .ok responses => transfer.signResponses env request responses

end ZoneTransfer

end Synvoid.Dns
