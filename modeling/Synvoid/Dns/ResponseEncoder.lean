import Synvoid.Framework.DnsName
import Synvoid.Dns.Edns

/-! # Encoding of responses

    Model of `synvoid-dns/src/server/response_encoder.rs`: a zone record
    becomes the bytes of a resource record (`encodeRr`), and the records of a
    response are put together to a packet (`assemblePacket`). Also the name
    and question encoders of `wire.rs` and the value parsers of
    `server/response.rs` it calls.

    `hex::decode` is from another crate and Unicode lower case needs the
    Unicode tables: both are parameters (`Externals`).
-/

namespace Synvoid.Dns

open Synvoid.Framework

/-! ## Section 1: Data model -/

inductive RecordType where
  | a | ns | cname | soa | ptr | mx | txt | aaaa | naptr | opt | ds | sshfp | rrsig | nsec
  | dnskey | nsec3 | nsec3param | tlsa | svcb | https | caa
  | other (code : UInt16)
  deriving DecidableEq, Repr

/-- `u16::from(record_type)`. -/
def RecordType.code : RecordType → UInt16
  | .a => 1 | .ns => 2 | .cname => 5 | .soa => 6 | .ptr => 12 | .mx => 15 | .txt => 16
  | .aaaa => 28 | .naptr => 35 | .opt => 41 | .ds => 43 | .sshfp => 44 | .rrsig => 46
  | .nsec => 47 | .dnskey => 48 | .nsec3 => 50 | .nsec3param => 51 | .tlsa => 52 | .svcb => 64
  | .https => 65 | .caa => 257
  | .other code => code

structure DnsZoneRecord where
  name : Str
  recordType : RecordType
  value : Str
  ttl : UInt32
  priority : Option UInt32

inductive DnsSection where
  | answer
  | authority
  | additional
  deriving DecidableEq, Repr

structure EncodedRecord where
  dnsSection : DnsSection
  recordType : RecordType
  ttl : UInt32
  bytes : Bytes
  deriving DecidableEq

structure ResponseEnvelope where
  answerRecords : List EncodedRecord
  authorityRecords : List EncodedRecord
  additionalRecords : List EncodedRecord

structure Externals where
  hexDecode : Str → Option Bytes
  toLowercase : Str → Str

/-- Decoding takes two hexadecimal digits to a byte. -/
def Externals.HexPairs (lib : Externals) : Prop :=
  ∀ s bytes, lib.hexDecode s = some bytes → 2 * bytes.length = byteLen s

/-- `hex::decode`, for concrete runs. -/
def decodeHex : Str → Option Bytes
  | [] => some []
  | [_] => none
  | hi :: lo :: rest => do
      let hi ← hexDigit hi
      let lo ← hexDigit lo
      let bytes ← decodeHex rest
      return UInt8.ofNat (hi * 16 + lo) :: bytes

/-- The parameters as they are on ASCII text. -/
def asciiExternals : Externals where
  hexDecode := decodeHex
  toLowercase s := s.map Char.toLower

theorem asciiExternals_hexPairs : asciiExternals.HexPairs := by
  intro s
  change ∀ bytes, decodeHex s = some bytes → _
  induction s using decodeHex.induct with
  | case1 =>
    intro bytes h
    obtain rfl := Option.some.inj h
    rfl
  | case2 => intro bytes h; cases h
  | case3 hi lo rest ih =>
    intro bytes h
    simp only [decodeHex, Option.bind_eq_bind, Option.bind_eq_some_iff] at h
    obtain ⟨_, hhi, _, hlo, tail, htail, h⟩ := h
    obtain rfl := Option.some.inj h
    have := ih _ htail
    rw [byteLen_cons, byteLen_cons, utf8Size_of_hexDigit hhi, utf8Size_of_hexDigit hlo,
      List.length_cons]
    omega

/-- The result of a parse, or an error text. -/
def orError {α : Type} (text : String) : Option α → Except String α
  | some a => .ok a
  | none => .error text

/-! ## Section 2: Names and questions -/

def encodeName (name : Str) : Bytes :=
  if name = [] ∨ name = ".".toList then [0]
  else
    -- labels that are too long are dropped without an error
    let name := if name = "@".toList then [] else trimEndMatches '.' name
    encodeLabels ((name.splitOn '.').filter fun label => label ≠ [] ∧ byteLen label ≤ 63) ++ [0]

def buildQuestion (name : Str) (qtype qclass : UInt16) : Bytes :=
  encodeLabels ((labels name).filter fun label => byteLen label ≤ 63) ++ [0] ++
    u16ToBe qtype ++ u16ToBe qclass

/-- The target of an SVCB or the replacement of an NAPTR value. -/
def encodeTarget (target : Str) : Bytes :=
  -- the three branches of the source write the same bytes
  if target.getLast? = some '.' ∨ target = ".".toList then encodeLabels (labels target) ++ [0]
  else if target = [] then [0]
  else encodeLabels (labels target) ++ [0]

/-! ## Section 3: SVCB, NAPTR and SSHFP values -/

/-- The keys of service parameters. -/
def svcParamKeys : List (String × UInt16) :=
  [("mandatory", 0), ("alpn", 1), ("no-default-alpn", 2), ("port", 3), ("ipv4hint", 4),
    ("ech", 5), ("ipv6hint", 6), ("dns", 7), ("nhttp", 8)]

def svcParamKey (key : Str) : Option UInt16 := svcParamKeys.lookup (String.ofList key)

/-- A key named in the `mandatory` parameter; `mandatory` itself is not one. -/
def mandatoryKey (key : Str) : Option UInt16 :=
  (svcParamKeys.drop 1).lookup (String.ofList key)

def encodePort (val : Str) : Bytes :=
  match parseU16 val with
  | some port => u16ToBe port
  | none => []

def encodeNhttp (val : Str) : Bytes :=
  match splitOnce '/' val with
  | some (ver, rest) => utf8 ver ++ encodePort rest
  | none => []

def encodeSvcParam (lib : Externals) (key : UInt16) (val : Str) : Bytes :=
  let items := val.splitOn ','
  if key = 0 then items.flatMap fun m => ((mandatoryKey (trim m)).map u16ToBe).getD []
  else if key = 1 then items.flatMap fun alpn => encodeLabel (trim alpn)
  else if key = 2 then []
  else if key = 3 then encodePort val
  else if key = 4 then items.flatMap fun ip => (parseIpv4 (trim ip)).getD []
  else if key = 5 then (lib.hexDecode val).getD []
  else if key = 6 then items.flatMap fun ip => (parseIpv6 (trim ip)).getD []
  else if key = 7 then encodePort val
  else if key = 8 then encodeNhttp val
  else utf8 val

/-- The parameters with a known key and a nonempty encoding. -/
def svcParams (lib : Externals) (params : List Str) : List (UInt16 × Bytes) :=
  params.filterMap fun param => do
    let (key, val) ← splitOnce '=' param
    let svcparamKey ← svcParamKey key
    let encoded := encodeSvcParam lib svcparamKey val
    if encoded = [] then none else some (svcparamKey, encoded)

def parseSvcbValue (lib : Externals) (value : Str) : Except String Bytes :=
  match splitWhitespace value with
  | priority :: target :: params => do
      let priority ← orError "Invalid SVCB priority" (parseU16 priority)
      -- `sort_by_key` is stable
      let sorted := (svcParams lib params).mergeSort fun p q => p.1 ≤ q.1
      return u16ToBe priority ++ encodeTarget target ++
        sorted.flatMap fun p => u16ToBe p.1 ++ u16ToBe (UInt16.ofNat p.2.length) ++ p.2
  | _ => .error "SVCB value must have priority and target"

def parseNaptrValue (value : Str) : Except String Bytes :=
  match splitWhitespace value with
  | order :: preference :: flags :: service :: replacement :: rest => do
      let order ← orError "Invalid NAPTR order" (parseU16 order)
      let preference ← orError "Invalid NAPTR preference" (parseU16 preference)
      -- the sixth field, if any, is written in the place of the regular expression
      return u16ToBe order ++ u16ToBe preference ++ encodeLabel flags ++ encodeLabel service ++
        encodeLabel (rest.headD []) ++ encodeTarget replacement
  | _ => .error ("NAPTR value must have at least 5 fields: " ++
      "order preference flags service replacement")

def parseSshfpValue (lib : Externals) (value : Str) : Except String Bytes :=
  match splitWhitespace value with
  | algorithm :: fingerprintType :: rest => do
      let algorithm ← orError "Invalid SSHFP algorithm" (parseU8 algorithm)
      let fingerprintType ← orError "Invalid SSHFP fingerprint type" (parseU8 fingerprintType)
      if algorithm > 2 then .error "Invalid SSHFP algorithm (must be 0-2)"
      else if fingerprintType > 2 then .error "Invalid SSHFP fingerprint type (must be 0-2)"
      else
        let fpBytes ← orError "Invalid SSHFP fingerprint (expected hex)"
          (lib.hexDecode ((rest.headD []).filter fun c => c ≠ ':' ∧ c ≠ ' '))
        return algorithm :: fingerprintType :: fpBytes
  | _ => .error "SSHFP value must have at least 2 fields: algorithm fingerprint"

/-! ## Section 4: Resource records -/

/-- The labels of a name value; an empty label if there is none. -/
def nameParts (value : Str) : List Str :=
  if labels value = [] then [[]] else labels value

/-- The chunks of at most 255 bytes of a text record. -/
def txtChunks : Nat → Bytes → Bytes
  | 0, _ => []
  | fuel + 1, txt =>
      if txt = [] then []
      else
        let chunk := txt.take 255
        UInt8.ofNat chunk.length :: chunk ++ txtChunks fuel (txt.drop 255)

/-- `Algorithm::from_u8`: Ed25519 and RSA. -/
def supportedAlgorithm (algorithm : UInt8) : Bool := algorithm == 15 || algorithm == 8

/-- The RDATA of a record, the `match` of `encode_rr`. -/
def encodeRdata (lib : Externals) (record : DnsZoneRecord) : Except String Bytes :=
  match record.recordType with
  | .a => orError "Invalid A record value" (parseIpv4 record.value)
  | .aaaa => orError "Invalid AAAA record value" (parseIpv6 record.value)
  | .cname | .ns =>
      if (nameParts record.value).any fun part => byteLen part > 63 then
        .error "DNS label exceeds the 63-byte limit"
      else .ok (encodeLabels (nameParts record.value) ++ [0])
  | .txt =>
      let txt := utf8 record.value
      if txt = [] then .ok [0] else .ok (txtChunks txt.length txt)
  | .mx =>
      let priorityVal := record.priority.getD 10
      if priorityVal.toNat > 65535 then
        .error ("MX priority " ++ toString priorityVal ++ " exceeds u16::MAX (65535)")
      -- the priority is checked, the labels are not
      else .ok (u16ToBe priorityVal.toUInt16 ++ encodeLabels (nameParts record.value) ++ [0])
  | .soa =>
      match splitWhitespace record.value with
      | mname :: rname :: serial :: refresh :: retry :: expire :: minimum :: _ => do
          let serial ← orError "Invalid SOA serial" (parseU32 serial)
          let refresh ← orError "Invalid SOA refresh" (parseU32 refresh)
          let retry ← orError "Invalid SOA retry" (parseU32 retry)
          let expire ← orError "Invalid SOA expire" (parseU32 expire)
          let minimum ← orError "Invalid SOA minimum" (parseU32 minimum)
          return encodeName mname ++ encodeName rname ++ u32ToBe serial ++ u32ToBe refresh ++
            u32ToBe retry ++ u32ToBe expire ++ u32ToBe minimum
      | _ => .error ("SOA record requires 7 fields: " ++
          "mname rname serial refresh retry expire minimum")
  | .nsec | .nsec3 | .nsec3param =>
      orError ("Invalid " ++ toString record.recordType.code ++ " hex value")
        (lib.hexDecode record.value)
  | .dnskey => do
      let keyBytes ← orError "Invalid DNSKEY hex value" (lib.hexDecode record.value)
      match keyBytes with
      | flagsHi :: flagsLo :: _ :: algoByte :: publicKey =>
          if supportedAlgorithm algoByte then
            -- `compute_dnskey` writes the flags, protocol 3, algorithm and key
            return u16ToBe (u16FromBe flagsHi flagsLo) ++ [3, algoByte] ++ publicKey
          else .error ("Unsupported DNSKEY algorithm: " ++ toString algoByte)
      | _ => .error "DNSKEY RDATA too short"
  | .ds => orError "Invalid DS hex value" (lib.hexDecode record.value)
  -- unlike CNAME and NS, no check of the label lengths
  | .ptr => .ok (encodeLabels (nameParts record.value) ++ [0])
  | .caa =>
      match splitn ' ' 3 record.value with
      -- flags, tag and the quoted value; anything else is one field behind zero flags
      | [flags, tag, value] => do
          let flags ← orError "Invalid CAA flags" (parseU8 flags)
          if byteLen tag > 255 then
            .error ("CAA tag length " ++ toString (byteLen tag) ++ " exceeds maximum 255 bytes")
          else return flags :: encodeLabel tag ++ utf8 (trimMatches '"' value)
      | _ =>
          if byteLen record.value > 255 then
            .error ("CAA value length " ++ toString (byteLen record.value) ++
              " exceeds maximum for single-field encoding")
          else .ok (0 :: encodeLabel record.value)
  | .tlsa =>
      match splitn ' ' 4 record.value with
      | [usage, selector, matchingType, certData] => do
          let usageVal ← orError ("Invalid TLSA usage: " ++ String.ofList usage) (parseU8 usage)
          let selectorVal ← orError ("Invalid TLSA selector: " ++ String.ofList selector)
            (parseU8 selector)
          let matchingTypeVal ← orError
            ("Invalid TLSA matching type: " ++ String.ofList matchingType) (parseU8 matchingType)
          let cert ← orError ("Invalid TLSA certificate data hex: " ++ String.ofList certData)
            (lib.hexDecode certData)
          return usageVal :: selectorVal :: matchingTypeVal :: cert
      | _ => .error ("TLSA record requires 4 fields: " ++
          "usage selector matching_type cert_data")
  | .svcb | .https => parseSvcbValue lib record.value
  | .naptr => parseNaptrValue record.value
  | .sshfp => parseSshfpValue lib record.value
  | .rrsig => orError "Invalid RRSIG hex value" (lib.hexDecode record.value)
  | .opt | .other _ => .error "unsupported record type"

/-- The owner name: a pointer to the question's name if it is the same. -/
def encodeOwner (lib : Externals) (record : DnsZoneRecord)
    (qnameCompressed : Option (Str × UInt16)) : Bytes :=
  match qnameCompressed with
  | some (qname, offset) =>
      -- `@` stands for the name of the question
      let recordName := if record.name = "@".toList ∨ record.name = [] then qname else record.name
      if qname ≠ [] ∧ lib.toLowercase recordName = lib.toLowercase qname then
        [(0xC0 : UInt8) ||| (offset >>> 8).toUInt8, (offset &&& 0xFF).toUInt8]
      else encodeName recordName
  | none => encodeName record.name

def encodeRr (lib : Externals) (record : DnsZoneRecord)
    (qnameCompressed : Option (Str × UInt16)) : Except String EncodedRecord := do
  let rdata ← encodeRdata lib record
  return {
    dnsSection := .answer
    recordType := record.recordType
    ttl := record.ttl
    bytes := encodeOwner lib record qnameCompressed ++ u16ToBe record.recordType.code ++
      u16ToBe 1 ++ u32ToBe record.ttl ++ u16ToBe (UInt16.ofNat rdata.length) ++ rdata }

/-! ## Section 5: Packets -/

def assemblePacket (envelope : ResponseEnvelope) (queryId flags : UInt16) (qname : Str)
    (qtype : UInt16) : Bytes :=
  u16ToBe queryId ++ u16ToBe flags ++ u16ToBe 1 ++
    u16ToBe (UInt16.ofNat envelope.answerRecords.length) ++
    u16ToBe (UInt16.ofNat envelope.authorityRecords.length) ++
    u16ToBe (UInt16.ofNat envelope.additionalRecords.length) ++
    buildQuestion qname qtype 1 ++
    envelope.answerRecords.flatMap EncodedRecord.bytes ++
    envelope.authorityRecords.flatMap EncodedRecord.bytes ++
    envelope.additionalRecords.flatMap EncodedRecord.bytes

def buildOptEncodedRecord (udpPayloadSize : UInt16) (dnssecOk : Bool) : EncodedRecord :=
  let optRdata := EdnsOptions.buildOptRecord udpPayloadSize dnssecOk
  { dnsSection := .additional
    recordType := .opt
    ttl := 0
    bytes := [0x00] ++ u16ToBe 41 ++ u16ToBe (UInt16.ofNat optRdata.length) ++ optRdata }

end Synvoid.Dns
