import Synvoid.Dns.ParsedQuery
import Synvoid.Dns.Tsig

/-! # Dynamic updates

    Model of `DynamicUpdate::parse` and of `DynamicUpdateHandler::handle_update`
    (`synvoid-dns/src/update.rs`) as programs of bounds-checked accesses to the
    message.

    What an update does to the zones is a parameter: that part reads the parsed
    update and not the message. The parsing of networks in the list of allowed
    addresses is one as well. The handler's counters are left out.
-/

namespace Synvoid.Dns

open Synvoid.Framework

/-! ## Section 1: Names and records -/

structure UpdateZone where
  name : Str
  zclass : UInt16
  deriving DecidableEq, Repr

inductive PrerequisiteCondition where
  | exists_
  | notExists
  | existsRRset
  | notExistsRRset
  deriving DecidableEq, Repr

structure UpdatePrerequisite where
  name : Str
  rtype : UInt16
  rdata : Bytes
  condition : PrerequisiteCondition
  deriving DecidableEq, Repr

structure UpdateRecord where
  name : Str
  rtype : UInt16
  rclass : UInt16
  ttl : Nat
  rdata : Bytes
  deriving DecidableEq, Repr

structure DynamicUpdate where
  zone : Option UpdateZone
  prerequisites : List UpdatePrerequisite
  updates : List UpdateRecord
  deriving DecidableEq, Repr

/-- `Err(text.to_string())`. -/
def parserError {α : Type} (text : String) : Checked (Except Str α) := return .error text.toList

/-- `let x = program?;`. -/
def tryBind {α β : Type} (x : Checked (Except Str α)) (f : α → Checked (Except Str β)) :
    Checked (Except Str β) := do
  let r ← x
  match r with
  | .error e => return .error e
  | .ok a => f a

def isPointer (len : UInt8) : Bool := len &&& 0xC0 == 0xC0

/-- The offset of a pointer. -/
def pointerOffset (len low : UInt8) : Nat := len.toNat % 64 * 256 + low.toNat

/-- The loop of `parse_name`. It goes on from the target of a pointer and never
    comes back, so the end it returns is the end of the labels it read last. -/
def parseNameLoop (query : Bytes) : Nat → Nat → Nat → Str → Checked (Except Str (Str × Nat))
  | 0, _, pos, name => return .ok (name, pos)
  | fuel + 1, jumps, pos, name =>
      if pos < query.length then do
        let len ← index query pos
        if len = 0 then return .ok (name, pos + 1)
        else if isPointer len then
          if jumps + 1 > 10 then parserError "Too many jumps"
          else do
            -- the second byte of the pointer is read without a check
            let low ← index query (pos + 1)
            parseNameLoop query fuel (jumps + 1) (pointerOffset len low) name
        else if pos + 1 + len.toNat > query.length then parserError "Name extends past query"
        else do
          let label ← range query (pos + 1) (pos + 1 + len.toNat)
          parseNameLoop query fuel jumps (pos + 1 + len.toNat) (pushLabel name label)
      else return .ok (name, pos)

/-- Between two jumps the position moves on, and there are at most ten. -/
def parseName (query : Bytes) (pos : Nat) : Checked (Except Str (Str × Nat)) :=
  parseNameLoop query (11 * (query.length + 1) + 1) 0 pos []

def parseRr (query : Bytes) (pos : Nat) : Checked (Except Str (Str × UInt16)) :=
  tryBind (parseName query pos) fun (name, endPos) =>
    if endPos + 4 > query.length then parserError "Incomplete RR"
    else do
      let _rtype ← readU16 query endPos
      let zclass ← readU16 query (endPos + 2)
      return .ok (name, zclass)

def parseRrWithRdata (query : Bytes) (pos : Nat) :
    Checked (Except Str (Str × UInt16 × UInt16 × Bytes)) :=
  tryBind (parseName query pos) fun (name, endPos) =>
    if endPos + 10 > query.length then parserError "Incomplete RR"
    else do
      let rtype ← readU16 query endPos
      let rclass ← readU16 query (endPos + 2)
      let rdlen ← readU16 query (endPos + 8)
      if endPos + 10 + rdlen.toNat > query.length then parserError "RDATA exceeds message"
      else do
        let rdata ← range query (endPos + 10) (endPos + 10 + rdlen.toNat)
        return .ok (name, rtype, rclass, rdata)

def parseRrFull (query : Bytes) (pos : Nat) :
    Checked (Except Str (Str × UInt16 × UInt16 × Nat × Bytes)) :=
  tryBind (parseName query pos) fun (name, endPos) =>
    if endPos + 10 > query.length then parserError "Incomplete RR"
    else do
      let rtype ← readU16 query endPos
      let rclass ← readU16 query (endPos + 2)
      let ttlHigh ← readU16 query (endPos + 4)
      let ttlLow ← readU16 query (endPos + 6)
      let rdlen ← readU16 query (endPos + 8)
      if endPos + 10 + rdlen.toNat > query.length then parserError "Incomplete RDATA"
      else do
        let rdata ← range query (endPos + 10) (endPos + 10 + rdlen.toNat)
        return .ok (name, rtype, rclass, ttlHigh.toNat * 65536 + ttlLow.toNat, rdata)

/-- `parse_name(query, pos).unwrap_or((String::new(), pos))`: a name that is not
    one ends where it starts. -/
def nameEndOr (query : Bytes) (pos : Nat) : Checked Nat := do
  let r ← parseName query pos
  match r with
  | .ok (_, endPos) => return endPos
  | .error _ => return pos

def skipRr (query : Bytes) (pos : Nat) : Checked Nat := do
  let endPos ← nameEndOr query pos
  return endPos + 4

def skipRrWithRdata (query : Bytes) (pos : Nat) : Checked Nat := do
  let endPos ← nameEndOr query pos
  if endPos + 10 > query.length then return query.length
  else do
    let rdlen ← readU16 query (endPos + 8)
    return endPos + 10 + rdlen.toNat

def skipRrFull (query : Bytes) (pos : Nat) : Checked Nat := skipRrWithRdata query pos

/-! ## Section 2: The message -/

def conditionOfClass (rclass : UInt16) : PrerequisiteCondition :=
  if rclass = 1 then .exists_
  else if rclass = 2 then .notExists
  else if rclass = 3 then .existsRRset
  else if rclass = 4 then .notExistsRRset
  else .exists_

/-- A loop over records: each is parsed, then the position is moved behind it. The
    second component is the position behind the last. -/
def parseMany {α : Type} (parse : Nat → Checked (Except Str α)) (skip : Nat → Checked Nat) :
    Nat → Nat → List α → Checked (Except Str (List α × Nat))
  | 0, pos, acc => return .ok (acc, pos)
  | count + 1, pos, acc =>
      tryBind (parse pos) fun item => do
        let pos ← skip pos
        parseMany parse skip count pos (acc ++ [item])

def parsePrerequisite (query : Bytes) (pos : Nat) : Checked (Except Str UpdatePrerequisite) :=
  tryBind (parseRrWithRdata query pos) fun (name, rtype, rclass, rdata) =>
    return .ok ⟨name, rtype, rdata, conditionOfClass rclass⟩

def parseUpdate (query : Bytes) (pos : Nat) : Checked (Except Str UpdateRecord) :=
  tryBind (parseRrFull query pos) fun (name, rtype, rclass, ttl, rdata) =>
    return .ok ⟨name, rtype, rclass, ttl, rdata⟩

/-- The zone section, and the position behind it. -/
def parseZone (query : Bytes) (qdcount : UInt16) : Checked (Except Str (Option UpdateZone × Nat)) :=
  if qdcount > 0 then
    tryBind (parseRr query 12) fun (name, zclass) => do
      let pos ← skipRr query 12
      return .ok (some ⟨name, zclass⟩, pos)
  else return .ok (none, 12)

/-- The sections behind the header. -/
def parseSections (query : Bytes) (qdcount ancount nscount arcount : UInt16) :
    Checked (Except Str DynamicUpdate) :=
  tryBind (parseZone query qdcount) fun (zone, pos) =>
    tryBind (parseMany (parsePrerequisite query) (skipRrWithRdata query) ancount.toNat pos [])
      fun (prerequisites, pos) => do
        let totalUpdates ← checkedAdd 16 nscount.toNat arcount.toNat
        tryBind (parseMany (parseUpdate query) (skipRrFull query) totalUpdates pos [])
          fun (updates, _) => return .ok ⟨zone, prerequisites, updates⟩

def opcodeUpdate : UInt8 := 5

def DynamicUpdate.parse (query : Bytes) : Checked (Except Str DynamicUpdate) :=
  if query.length < 12 then parserError "Query too small"
  else do
    let flags ← readU16 query 2
    if (QueryFlags.fromU16 flags).opcode ≠ opcodeUpdate then parserError "Not an UPDATE message"
    else do
      let qdcount ← readU16 query 4
      let ancount ← readU16 query 6
      let nscount ← readU16 query 8
      let arcount ← readU16 query 10
      parseSections query qdcount ancount nscount arcount

/-! ## Section 3: The handler -/

structure DynamicUpdateHandler where
  enabled : Bool
  allowAny : Bool
  requireTsig : Bool
  tsigVerifier : Option TsigKeys
  allowedIps : List Str
  maxUpdateSize : Nat

/-- What the handler uses besides the message. -/
structure UpdateEnvironment where
  hmac : Hmac
  sha256 : Bytes → Bytes
  /-- Whether a text is a network that contains the client's address. -/
  networkContains : Str → Bool
  /-- What an update does to its zone: an error, or the RCODE of the response. -/
  applyUpdate : UpdateZone → List UpdatePrerequisite → List UpdateRecord → Except Str UInt8
  cache : ReplayCache
  clock : ClockReads

namespace DynamicUpdateHandler

variable (handler : DynamicUpdateHandler) (env : UpdateEnvironment)

def isIpAllowed : Bool :=
  handler.allowedIps.any fun allowed => allowed == ['*'] || env.networkContains allowed

/-- The three loops of `compute_additional_section_offset`. -/
def skipMany (skip : Nat → Checked Nat) : Nat → Nat → Checked Nat
  | 0, pos => return pos
  | count + 1, pos => do
      let pos ← skip pos
      skipMany skip count pos

def computeAdditionalSectionOffset (query : Bytes) (pos : Nat) (qdcount ancount nscount : UInt16) :
    Checked Nat := do
  let pos ← skipMany (skipRr query) qdcount.toNat pos
  let pos ← skipMany (skipRrWithRdata query) ancount.toNat pos
  skipMany (skipRrFull query) nscount.toNat pos

/-- Whether the message may be processed: a required signature is there, and it
    is good if there is a verifier. -/
def checkTsig (query : Bytes) (tsig : Option TsigParseResult) : Except Str Unit :=
  if handler.requireTsig then
    match tsig, handler.tsigVerifier with
    | none, _ => .error "Dynamic updates require TSIG authentication".toList
    | some tsig, some keys =>
        match (verify env.hmac env.sha256 keys env.cache env.clock query tsig).1 with
        | .error _ => .error "TSIG verification failed".toList
        | .ok () => .ok ()
    | some _, none => .ok ()
  else .ok ()

/-- A response without sections; empty if the query does not parse. -/
def buildResponse (query : Bytes) (rcode : UInt8) : Checked Bytes := do
  let parsed ← ParsedDnsQuery.parse query
  match parsed with
  | .error _ => return []
  | .ok parsed =>
      return u16ToBe parsed.id ++
        u16ToBe (buildResponseFlagsFromQuery parsed true false false false rcode) ++
        u16ToBe 0 ++ u16ToBe 0 ++ u16ToBe 0 ++ u16ToBe 0

/-- Whether the message is refused before it is read. -/
def refuses (query : Bytes) : Option String :=
  if !handler.enabled then some "Dynamic updates not enabled"
  else if query.length > handler.maxUpdateSize then some "Update message too large"
  else if !handler.allowAny && !handler.isIpAllowed env then
    some "Dynamic updates not allowed from this IP"
  else none

/-- The update itself. -/
def applyParsed (query : Bytes) (update : DynamicUpdate) : Checked (Except Str Bytes) :=
  match update.zone with
  | none => parserError "No zone in UPDATE"
  | some zone =>
      match env.applyUpdate zone update.prerequisites update.updates with
      | .error e => return .error e
      | .ok rcode => do
          let response ← buildResponse query rcode
          return .ok response

def handleUpdate (query : Bytes) : Checked (Except Str Bytes) :=
  match handler.refuses env query with
  | some text => parserError text
  | none => do
      let qdcount ← readU16 query 4
      let ancount ← readU16 query 6
      let nscount ← readU16 query 8
      let additionalOffset ← computeAdditionalSectionOffset query 12 qdcount ancount nscount
      let tsig ← parseTsigFromQuery query additionalOffset
      match handler.checkTsig env query tsig with
      | .error e => return .error e
      | .ok () => tryBind (DynamicUpdate.parse query) (applyParsed env query)

end DynamicUpdateHandler

end Synvoid.Dns
