import Synvoid.Framework.Checked
import Synvoid.Framework.RustStr

/-! # Parsed queries

    Model of `ParsedDnsQuery::parse` and of the response flags
    (`synvoid-dns/src/parsed_query.rs`). The parser compares every position with
    the length of the query before it reads there, so it does not panic
    (`ParsedDnsQuery.parse_safe`).
-/

namespace Synvoid.Dns

open Synvoid.Framework

inductive QueryParseError where
  | tooShort
  | notAQuery (isResponse : Bool) (opcode : UInt8)
  | badQuestionCount (count : UInt16)
  | labelTooLong
  | totalNameTooLong
  | truncatedQuestion
  | malformedEdns
  deriving DecidableEq, Repr

structure QueryFlags where
  isResponse : Bool
  opcode : UInt8
  authoritative : Bool
  truncated : Bool
  recursionDesired : Bool
  recursionAvailable : Bool
  authenticData : Bool
  checkingDisabled : Bool
  responseCode : UInt8
  deriving DecidableEq, Repr

/-- The flags of a header. `wire::get_message_flags` reads the same. -/
def QueryFlags.fromU16 (flags : UInt16) : QueryFlags where
  isResponse := flags &&& 0x8000 != 0
  opcode := ((flags &&& 0x7800) >>> 11).toUInt8
  authoritative := flags &&& 0x0400 != 0
  truncated := flags &&& 0x0200 != 0
  recursionDesired := flags &&& 0x0100 != 0
  recursionAvailable := flags &&& 0x0080 != 0
  authenticData := flags &&& 0x0020 != 0
  checkingDisabled := flags &&& 0x0010 != 0
  responseCode := (flags &&& 0x000F).toUInt8

structure ParsedDnsQuery where
  id : UInt16
  flags : QueryFlags
  qdcount : UInt16
  qname : Str
  qnameEnd : Nat
  qtype : UInt16
  qclass : UInt16
  questionEnd : Nat
  hasEdns : Bool
  dnssecOk : Bool
  raw : Bytes
  deriving DecidableEq, Repr

/-- A label joined to a name by a dot. -/
def joinLabel (name label : Str) : Str := (if name = [] then [] else name ++ ['.']) ++ label

/-- Labels with control characters are refused, and so is what is not UTF-8. -/
def decodeLabel (labelBytes : Bytes) : Option Str :=
  if labelBytes.any fun byte => byte < 0x21 || byte == 0x7F then none else fromUtf8 labelBytes

/-- The loop over the labels of the name. Pointers are refused. -/
def parseQname (query : Bytes) : Nat → Nat → Nat → Str →
    Checked (Except QueryParseError (Str × Nat))
  | 0, _, _, _ => return .error .truncatedQuestion
  | fuel + 1, pos, totalNameLen, qname =>
      if pos ≥ query.length then return .error .truncatedQuestion
      else do
        let len ← index query pos
        if len = 0 then return .ok (qname, pos + 1)
        else if len &&& 0xC0 = 0xC0 then return .error .truncatedQuestion
        else if len > 63 then return .error .labelTooLong
        else if pos + 1 + len.toNat > query.length then return .error .truncatedQuestion
        else do
          let labelBytes ← range query (pos + 1) (pos + 1 + len.toNat)
          match decodeLabel labelBytes with
          | none => return .error .labelTooLong
          | some label =>
              if totalNameLen + len.toNat + 1 > 255 then return .error .totalNameTooLong
              else
                parseQname query fuel (pos + 1 + len.toNat) (totalNameLen + len.toNat + 1)
                  (joinLabel qname label)

/-- Whether the first additional record is an OPT record, and its DO bit. -/
def parseEdns (query : Bytes) (arcount : UInt16) (questionEnd : Nat) : Checked (Bool × Bool) :=
  if arcount > 0 ∧ questionEnd + 3 < query.length then do
    let rrType ← readU16 query (questionEnd + 1)
    if rrType = 41 then
      if questionEnd + 9 ≤ query.length then do
        let ednsFlags ← readU16 query (questionEnd + 7)
        return (true, ednsFlags &&& 0x8000 != 0)
      else return (true, false)
    else return (false, false)
  else return (false, false)

def ParsedDnsQuery.parse (query : Bytes) : Checked (Except QueryParseError ParsedDnsQuery) :=
  if query.length < 12 then return .error .tooShort
  else do
    let id ← readU16 query 0
    let rawFlags ← readU16 query 2
    let flags := QueryFlags.fromU16 rawFlags
    let qdcount ← readU16 query 4
    if flags.isResponse then return .error (.notAQuery true flags.opcode)
    else if qdcount = 0 then return .error (.badQuestionCount 0)
    else do
      let name ← parseQname query (query.length + 1) 12 0 []
      match name with
      | .error e => return .error e
      | .ok (qname, qnameEnd) =>
          if qnameEnd + 4 > query.length then return .error .truncatedQuestion
          else do
            let qtype ← readU16 query qnameEnd
            let qclass ← readU16 query (qnameEnd + 2)
            let arcount ← readU16 query 10
            let (hasEdns, dnssecOk) ← parseEdns query arcount (qnameEnd + 4)
            return .ok {
              id, flags, qdcount, qname, qnameEnd, qtype, qclass, hasEdns, dnssecOk
              questionEnd := qnameEnd + 4
              raw := query }

/-! ### No panics -/

theorem parseQname_safe (query : Bytes) (fuel pos totalNameLen : Nat) (qname : Str) :
    Safe (parseQname query fuel pos totalNameLen qname) := by
  induction fuel generalizing pos totalNameLen qname with
  | zero => exact safe_pure _
  | succ fuel ih =>
    unfold parseQname
    split
    · exact safe_pure _
    · next hpos =>
      rw [safe_index_bind]
      refine ⟨Nat.lt_of_not_ge hpos, ?_⟩
      split
      · exact safe_pure _
      · split
        · exact safe_pure _
        · split
          · exact safe_pure _
          · split
            · exact safe_pure _
            · rw [safe_range_bind]
              refine ⟨⟨by omega, by omega⟩, ?_⟩
              split
              · exact safe_pure _
              · split
                · exact safe_pure _
                · exact ih _ _ _

theorem parseEdns_safe (query : Bytes) (arcount : UInt16) (questionEnd : Nat) :
    Safe (parseEdns query arcount questionEnd) := by
  unfold parseEdns
  split
  · next hroom =>
    rw [safe_readU16_bind]
    refine ⟨by omega, ?_⟩
    split
    · split
      · rw [safe_readU16_bind]
        exact ⟨by omega, safe_pure _⟩
      · exact safe_pure _
    · exact safe_pure _
  · exact safe_pure _

theorem ParsedDnsQuery.parse_safe (query : Bytes) : Safe (ParsedDnsQuery.parse query) := by
  unfold ParsedDnsQuery.parse
  split
  · exact safe_pure _
  · next hlong =>
    rw [safe_readU16_bind, safe_readU16_bind, safe_readU16_bind]
    refine ⟨by omega, by omega, by omega, ?_⟩
    split
    · exact safe_pure _
    · split
      · exact safe_pure _
      · rw [safe_bind]
        obtain ⟨name, hname⟩ := parseQname_safe query (query.length + 1) 12 0 []
        refine ⟨name, hname, ?_⟩
        split
        · exact safe_pure _
        · split
          · exact safe_pure _
          · rw [safe_readU16_bind, safe_readU16_bind, safe_readU16_bind, safe_bind]
            obtain ⟨edns, hedns⟩ := parseEdns_safe query (u16At query 10) _
            exact ⟨by omega, by omega, by omega, edns, hedns, safe_pure _⟩

/-! ### Response flags -/

def flagBit (set : Bool) (mask : UInt16) : UInt16 := if set then mask else 0

/-- `build_response_flags_from_query`. -/
def buildResponseFlagsFromQuery (parsed : ParsedDnsQuery)
    (authoritative truncated recursionAvailable authenticData : Bool) (rcode : UInt8) : UInt16 :=
  (0x8000 : UInt16) ||| flagBit authoritative 0x0400 ||| flagBit truncated 0x0200 |||
    flagBit parsed.flags.recursionDesired 0x0100 ||| flagBit recursionAvailable 0x0080 |||
    flagBit authenticData 0x0020 ||| flagBit parsed.flags.checkingDisabled 0x0010 |||
    ((parsed.flags.opcode.toUInt16 &&& 0x0F) <<< 11) ||| (rcode.toUInt16 &&& 0x000F)

end Synvoid.Dns
