import Synvoid.Framework.Checked

/-! # EDNS options of a query

    Model of `parse_edns_options` and `EdnsOptions::parse_from_query`
    (`synvoid-dns/src/edns.rs`) as a program of bounds-checked accesses to the
    query, and of `EdnsOptions::build_opt_record`.

    Positions are natural numbers: they never exceed the query's length by
    more than a few 16-bit lengths, so `usize` does not overflow. The text of
    an extended error is kept as the bytes that `from_utf8_lossy` decodes.
-/

namespace Synvoid.Dns

open Synvoid.Framework

/-! ## Section 1: Data model -/

inductive IpAddr where
  | v4 (octets : Bytes)
  | v6 (octets : Bytes)
  deriving DecidableEq, Repr

structure ClientSubnet where
  address : IpAddr
  prefixLen : UInt8
  deriving DecidableEq, Repr

structure Cookie where
  clientCookie : Bytes
  serverCookie : Option Bytes
  deriving DecidableEq, Repr

structure ExtendedDnsErrorOption where
  infoCode : UInt16
  extraText : Option Bytes
  deriving DecidableEq, Repr

/-- What the options in the record's RDATA say. -/
structure OptRdata where
  clientSubnet : Option ClientSubnet := none
  keytag : Option UInt16 := none
  cookie : Option Cookie := none
  keepalive : Option UInt16 := none
  extendedDnsErrors : List ExtendedDnsErrorOption := []
  paddingRequested : Bool := false
  deriving DecidableEq, Repr

structure EdnsOptions where
  udpPayloadSize : UInt16
  extendedRcode : UInt8
  version : UInt8
  dnssecOk : Bool
  rdata : OptRdata
  deriving DecidableEq, Repr

def ednsOptionCookie : UInt16 := 10
def ednsOptionClientSubnet : UInt16 := 8
def ednsOptionKeytag : UInt16 := 0
def ednsOptionKeepalive : UInt16 := 11
def ednsOptionEde : UInt16 := 15
def ednsOptionPadding : UInt16 := 12

/-! ## Section 2: One option -/

/-- `prefix_len.div_ceil(8)`. -/
def addrBytes (prefixLen : UInt8) : Nat := (prefixLen.toNat + 7) / 8

/-- The address of a client subnet option, in an array of `width` octets. -/
def readAddress (query : Bytes) (width pos n : Nat) : Checked Bytes := do
  let src ← range query pos (pos + n)
  copyFromSlice (List.replicate width 0) n src

/-- Client subnet option with its data at `rdataPos`; the RDATA ends at
    `stop`. -/
def parseClientSubnet (query : Bytes) (stop rdataPos : Nat) (acc : OptRdata) :
    Checked OptRdata := do
  let family ← readU16 query rdataPos
  let prefixLen ← index query (rdataPos + 2)
  let scope ← index query (rdataPos + 3)
  if scope = 0 ∧ prefixLen > 0 ∧ rdataPos + 4 + addrBytes prefixLen ≤ stop then
    if family = 1 then do
      let octets ← readAddress query 4 (rdataPos + 4) (addrBytes prefixLen)
      return { acc with clientSubnet := some ⟨.v4 octets, prefixLen⟩ }
    else if family = 2 then do
      let octets ← readAddress query 16 (rdataPos + 4) (addrBytes prefixLen)
      return { acc with clientSubnet := some ⟨.v6 octets, prefixLen⟩ }
    -- any other family leaves the unspecified address
    else return { acc with clientSubnet := some ⟨.v4 [0, 0, 0, 0], prefixLen⟩ }
  else return acc

def parseCookie (query : Bytes) (rdataPos optionLen : Nat) (acc : OptRdata) :
    Checked OptRdata := do
  let clientCookieLen := min optionLen 8
  let clientSrc ← range query rdataPos (rdataPos + clientCookieLen)
  let clientCookie ← copyFromSlice (List.replicate clientCookieLen 0) clientCookieLen clientSrc
  if optionLen > 8 then do
    let serverCookieLen := min (optionLen - 8) 24
    let serverSrc ← range query (rdataPos + 8) (rdataPos + 8 + serverCookieLen)
    let serverCookie ← copyFromSlice (List.replicate serverCookieLen 0) serverCookieLen serverSrc
    return { acc with cookie := some ⟨clientCookie, some serverCookie⟩ }
  -- a missing server cookie is an empty one
  else return { acc with cookie := some ⟨clientCookie, some []⟩ }

def ExtendedDnsErrorOption.decode (data : Bytes) : Checked (Option ExtendedDnsErrorOption) :=
  if data.length < 2 then return none
  else do
    let infoCode ← readU16 data 0
    return some ⟨infoCode, if data.length > 2 then some (data.drop 2) else none⟩

/-- The branches of the option loop. -/
def parseOptionData (query : Bytes) (stop rdataPos : Nat) (optionCode optionLen : UInt16)
    (acc : OptRdata) : Checked OptRdata :=
  if optionCode = ednsOptionClientSubnet ∧ optionLen ≥ 4 then
    parseClientSubnet query stop rdataPos acc
  else if optionCode = ednsOptionKeytag ∧ optionLen ≥ 2 then do
    let keytag ← readU16 query rdataPos
    return { acc with keytag := some keytag }
  else if optionCode = ednsOptionCookie ∧ optionLen ≥ 8 then
    parseCookie query rdataPos optionLen.toNat acc
  else if optionCode = ednsOptionKeepalive ∧ optionLen ≥ 2 then do
    let timeout ← readU16 query rdataPos
    return { acc with keepalive := some timeout }
  else if optionCode = ednsOptionEde ∧ optionLen ≥ 2 then do
    let data ← range query rdataPos (rdataPos + optionLen.toNat)
    let ede ← ExtendedDnsErrorOption.decode data
    return { acc with extendedDnsErrors := acc.extendedDnsErrors ++ ede.toList }
  else if optionCode = ednsOptionPadding then
    return { acc with paddingRequested := true }
  else return acc

/-! ## Section 3: The loops -/

/-- The loop over the options up to `stop`. It moves by at least four bytes
    an iteration, so `fuel` past the rest of the RDATA is never used up. -/
def parseOptions (query : Bytes) (stop : Nat) : Nat → Nat → OptRdata → Checked OptRdata
  | 0, _, acc => return acc
  | fuel + 1, rdataPos, acc =>
      if rdataPos + 4 ≤ stop then do
        let optionCode ← readU16 query rdataPos
        let optionLen ← readU16 query (rdataPos + 2)
        -- `optionLen` is not compared with `stop` before the data is read
        let acc ← parseOptionData query stop (rdataPos + 4) optionCode optionLen acc
        parseOptions query stop fuel (rdataPos + 4 + optionLen.toNat) acc
      else return acc

/-- The OPT record, from behind its type on. -/
def parseOpt (query : Bytes) (pos : Nat) : Checked EdnsOptions := do
  let udpPayload ← readU16 query pos
  let extendedRcodeAndVersion ← readU16 query (pos + 2)
  let flags ← readU16 query (pos + 4)
  let rdlen ← readU16 query (pos + 6)
  let rdata ← parseOptions query (pos + 8 + rdlen.toNat) (rdlen.toNat + 1) (pos + 8) {}
  return {
    udpPayloadSize := if udpPayload ≥ 4096 then udpPayload else 4096
    extendedRcode := (extendedRcodeAndVersion >>> 8).toUInt8
    version := (extendedRcodeAndVersion &&& 0xFF).toUInt8
    dnssecOk := flags &&& 0x8000 != 0
    rdata }

/-- The loop over the records. A record that is not an OPT record is skipped
    by the 16 bits behind its type. -/
def parseRecords (query : Bytes) : Nat → Nat → Checked (Option EdnsOptions)
  | 0, _ => return none
  | fuel + 1, pos =>
      if pos + 10 ≤ query.length then do
        let name ← index query pos
        -- an owner name other than the root ends the search
        if name ≠ 0 then return none
        else do
          let qtype ← readU16 query (pos + 1)
          if qtype ≠ 41 then do
            let rdlen ← readU16 query (pos + 3)
            parseRecords query fuel (pos + 5 + rdlen.toNat)
          else do
            let edns ← parseOpt query (pos + 3)
            return some edns
      else return none

def EdnsOptions.parseFromQuery (query : Bytes) (qdEnd : Nat) : Checked (Option EdnsOptions) :=
  if query.length < qdEnd + 11 then return none
  else parseRecords query (query.length + 1) qdEnd

/-- The inner loop of `parse_edns_options`: the position behind a name. -/
def skipName (query : Bytes) : Nat → Nat → Checked Nat
  | 0, pos => return pos
  | fuel + 1, pos =>
      if pos < query.length then do
        let len ← index query pos
        if len = 0 then return pos + 1
        else skipName query fuel (pos + 1 + len.toNat)
      else return pos

/-- The position behind `qdcount` questions. -/
def skipQuestions (query : Bytes) : Nat → Nat → Checked Nat
  | 0, pos => return pos
  | qdcount + 1, pos => do
      let pos ← skipName query (query.length + 1) pos
      skipQuestions query qdcount (pos + 4)

def parseEdnsOptions (query : Bytes) : Checked (Option EdnsOptions) :=
  if query.length < 12 then return none
  else do
    let qdcount ← readU16 query 4
    let pos ← skipQuestions query qdcount.toNat 12
    EdnsOptions.parseFromQuery query pos

/-! ## Section 4: The OPT record of a response -/

def EdnsOptions.buildOptRecord (udpPayloadSize : UInt16) (dnssecOk : Bool) : Bytes :=
  let udp := if udpPayloadSize ≥ 4096 then udpPayloadSize else 4096
  let flags : UInt16 := if dnssecOk then 0x8000 else 0
  u16ToBe udp ++ u16ToBe flags ++ u16ToBe 0

end Synvoid.Dns
