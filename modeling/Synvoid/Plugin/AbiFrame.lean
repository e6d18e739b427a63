import Synvoid.Framework.ByteReader
import Synvoid.Framework.RustStr

/-! # Header blocks for plugins

    Model of `serialize_headers_canonical`
    (`synvoid-plugin-runtime/src/abi_frame.rs`). The headers of a request are
    written into one block, each name and value behind its length of two bytes.
    A guest reads the block by this layout alone (`readHeaderBlock`).

    A header map is the list of its entries in the order of its iterator. Of the
    policy only the limits on headers are read.
-/

namespace Synvoid.Plugin

open Synvoid.Framework

/-! ## Section 1: Errors and policies -/

inductive SerializationFailureClass where
  | headerCountTooLarge
  | headerNameTooLarge
  | headerValueTooLarge
  | headerBlockTooLarge
  deriving DecidableEq

structure SerializationError where
  failureClass : SerializationFailureClass
  message : Str
  deriving DecidableEq

structure RequestFramePolicy where
  maxHeaderCount : Nat
  maxHeaderNameBytes : Nat
  maxHeaderValueBytes : Nat
  maxSerializedHeadersBytes : Nat

/-- `"{what} {n} exceeds limit {limit}"`. -/
def exceedsLimit (what : String) (n limit : Nat) : Str :=
  what.toList ++ ' ' :: decimal n ++ " exceeds limit ".toList ++ decimal limit

/-- `"{what} {n} exceeds u16::MAX"`. -/
def exceedsU16 (what : String) (n : Nat) : Str :=
  what.toList ++ ' ' :: decimal n ++ " exceeds u16::MAX".toList

/-- `if n > limit { return Err(..) }`. -/
def rejectAbove (n limit : Nat) (failureClass : SerializationFailureClass) (message : Str) :
    Except SerializationError Unit :=
  if n > limit then .error ⟨failureClass, message⟩ else .ok ()

theorem rejectAbove_bind_eq_ok {n limit : Nat} {failureClass : SerializationFailureClass}
    {message : Str} {α : Type} {x : Unit → Except SerializationError α} {a : α} :
    (rejectAbove n limit failureClass message >>= x) = .ok a ↔ n ≤ limit ∧ x () = .ok a := by
  unfold rejectAbove
  by_cases h : n > limit
  · rw [if_pos h]
    exact iff_of_false (fun h => by cases h) fun hle => absurd hle.1 (Nat.not_le.mpr h)
  · rw [if_neg h]
    exact ⟨fun hx => ⟨Nat.not_lt.mp h, hx⟩, fun hx => hx.2⟩

/-! ## Section 2: The header block -/

/-- One entry of a header map. -/
structure Header where
  name : Str
  value : Bytes
  deriving DecidableEq

/-- The bytes of one entry. -/
def entryBytes (header : Header) : Bytes :=
  leBytes 2 (byteLen header.name) ++ utf8 header.name ++
    leBytes 2 header.value.length ++ header.value

/-- The loop over the entries; `buf` is what has been written. -/
def writeEntries (policy : RequestFramePolicy) :
    List Header → Bytes → Except SerializationError Bytes
  | [], buf => .ok buf
  | header :: rest, buf => do
      let nameLen := byteLen header.name
      rejectAbove nameLen policy.maxHeaderNameBytes .headerNameTooLarge
        (exceedsLimit "header name length" nameLen policy.maxHeaderNameBytes)
      rejectAbove nameLen 65535 .headerNameTooLarge (exceedsU16 "header name length" nameLen)
      let valLen := header.value.length
      rejectAbove valLen policy.maxHeaderValueBytes .headerValueTooLarge
        (exceedsLimit "header value length" valLen policy.maxHeaderValueBytes)
      rejectAbove valLen 65535 .headerValueTooLarge (exceedsU16 "header value length" valLen)
      let entrySize := 2 + nameLen + 2 + valLen
      rejectAbove (buf.length + entrySize) policy.maxSerializedHeadersBytes .headerBlockTooLarge
        ("serialized headers would exceed limit of ".toList ++
          decimal policy.maxSerializedHeadersBytes ++ " bytes".toList)
      writeEntries policy rest (buf ++ entryBytes header)

def serializeHeadersCanonical (headers : List Header) (policy : RequestFramePolicy) :
    Except SerializationError Bytes := do
  let headerCount := headers.length
  rejectAbove headerCount policy.maxHeaderCount .headerCountTooLarge
    (exceedsLimit "header count" headerCount policy.maxHeaderCount)
  rejectAbove headerCount 65535 .headerCountTooLarge (exceedsU16 "header count" headerCount)
  writeEntries policy headers (leBytes 2 headerCount)

/-! ### The documented layout -/

/-- One entry: the name and the value, each behind its length. -/
def readEntry (data : Bytes) : Option ((Bytes × Bytes) × Bytes) := do
  let (name, data) ← readField16 data
  let (value, data) ← readField16 data
  return ((name, value), data)

/-- The number of entries, then the entries; and what is left. -/
def readHeaderBlock (data : Bytes) : Option (List (Bytes × Bytes) × Bytes) := do
  let (count, data) ← readExact 2 data
  readMany readEntry (leValue count) data

/-- What a guest should read for an entry. -/
def Header.bytes (header : Header) : Bytes × Bytes := (utf8 header.name, header.value)

/-! ### What is written -/

/-- The lengths of an entry fit into two bytes. -/
def Header.Narrow (header : Header) : Prop :=
  byteLen header.name < 65536 ∧ header.value.length < 65536

theorem length_entryBytes (header : Header) :
    (entryBytes header).length = 2 + byteLen header.name + 2 + header.value.length := by
  simp only [entryBytes, List.length_append, length_leBytes, length_utf8]

/-- What the loop adds, and the bound it keeps. -/
theorem writeEntries_eq_ok {policy : RequestFramePolicy} {headers : List Header} {buf block : Bytes}
    (h : writeEntries policy headers buf = .ok block) :
    block = buf ++ headers.flatMap entryBytes ∧ (∀ header ∈ headers, header.Narrow) ∧
      (headers ≠ [] → block.length ≤ policy.maxSerializedHeadersBytes) := by
  induction headers generalizing buf with
  | nil =>
    obtain rfl := Except.ok.inj h
    simp
  | cons header rest ih =>
    simp only [writeEntries, rejectAbove_bind_eq_ok] at h
    obtain ⟨-, hname, -, hvalue, hfits, h⟩ := h
    obtain ⟨rfl, hnarrow, hbound⟩ := ih h
    refine ⟨by simp, ?_, fun _ => ?_⟩
    · exact List.forall_mem_cons.mpr ⟨⟨by omega, by omega⟩, hnarrow⟩
    · by_cases hrest : rest = []
      · -- the last entry is within the bound that was checked for it
        subst hrest
        simp only [List.flatMap_nil, List.append_nil, List.length_append, length_entryBytes]
        omega
      · exact hbound hrest

theorem serializeHeadersCanonical_eq_ok {headers : List Header} {policy : RequestFramePolicy}
    {block : Bytes} (h : serializeHeadersCanonical headers policy = .ok block) :
    block = leBytes 2 headers.length ++ headers.flatMap entryBytes ∧ headers.length < 65536 ∧
      (∀ header ∈ headers, header.Narrow) ∧
      (headers ≠ [] → block.length ≤ policy.maxSerializedHeadersBytes) := by
  simp only [serializeHeadersCanonical, rejectAbove_bind_eq_ok] at h
  obtain ⟨-, hcount, h⟩ := h
  obtain ⟨hblock, hnarrow, hbound⟩ := writeEntries_eq_ok h
  exact ⟨hblock, by omega, hnarrow, hbound⟩

theorem readEntry_entryBytes {header : Header} (h : header.Narrow) (rest : Bytes) :
    readEntry (entryBytes header ++ rest) = some (header.bytes, rest) := by
  have hname := @readField16_append (utf8 header.name) h.1
    (leBytes 2 header.value.length ++ (header.value ++ rest))
  have hvalue := readField16_append h.2 rest
  have hsplit : entryBytes header ++ rest = leBytes 2 (utf8 header.name).length ++
      (utf8 header.name ++ (leBytes 2 header.value.length ++ (header.value ++ rest))) := by
    simp only [entryBytes, length_utf8, List.append_assoc]
  unfold readEntry
  rw [hsplit, hname]
  simp only [Option.bind_eq_bind, Option.bind_some, hvalue]
  rfl

theorem readHeaderBlock_written {headers : List Header} (hcount : headers.length < 65536)
    (hnarrow : ∀ header ∈ headers, header.Narrow) :
    readHeaderBlock (leBytes 2 headers.length ++ headers.flatMap entryBytes) =
      some (headers.map Header.bytes, []) := by
  have hwritten : ∀ item ∈ headers.map Header.bytes, ∀ rest : Bytes,
      readEntry ((leBytes 2 item.1.length ++ item.1 ++ leBytes 2 item.2.length ++ item.2) ++ rest) =
        some (item, rest) := by
    intro item hitem rest
    obtain ⟨header, hheader, rfl⟩ := List.mem_map.mp hitem
    exact readEntry_entryBytes (hnarrow header hheader) rest
  have hmany := readMany_flatMap hwritten []
  have hflat : (headers.map Header.bytes).flatMap (fun item =>
      leBytes 2 item.1.length ++ item.1 ++ leBytes 2 item.2.length ++ item.2) =
      headers.flatMap entryBytes := by
    rw [List.flatMap_map]
    rfl
  rw [hflat, List.append_nil, List.length_map] at hmany
  unfold readHeaderBlock
  rw [readExact_append (length_leBytes 2 _)]
  simp only [Option.bind_eq_bind, Option.bind_some]
  rw [leValue_leBytes hcount, hmany]

theorem Header.bytes_injective : Function.Injective Header.bytes := by
  intro ⟨name, value⟩ ⟨name', value'⟩ h
  obtain ⟨hname, hvalue⟩ := Prod.mk.inj h
  simp only at hname hvalue
  rw [utf8_injective hname, hvalue]

/-- **The header block is faithful**: it reads back as the headers, it is within its limit, and
    only these headers are written as it is, whatever the policy. -/
theorem header_block_faithful {headers : List Header} {policy : RequestFramePolicy} {block : Bytes}
    (h : serializeHeadersCanonical headers policy = .ok block) :
    readHeaderBlock block = some (headers.map Header.bytes, []) ∧
    (2 ≤ policy.maxSerializedHeadersBytes → block.length ≤ policy.maxSerializedHeadersBytes) ∧
    ∀ headers' policy', serializeHeadersCanonical headers' policy' = .ok block →
      headers' = headers := by
  obtain ⟨hblock, hcount, hnarrow, hbound⟩ := serializeHeadersCanonical_eq_ok h
  have hread : readHeaderBlock block = some (headers.map Header.bytes, []) := by
    rw [hblock]
    exact readHeaderBlock_written hcount hnarrow
  refine ⟨hread, ?_, ?_⟩
  · intro hlimit
    by_cases hempty : headers = []
    · subst hempty
      rw [hblock]
      simpa using hlimit
    · exact hbound hempty
  · intro headers' policy' h'
    obtain ⟨hblock', hcount', hnarrow', -⟩ := serializeHeadersCanonical_eq_ok h'
    have hread' := readHeaderBlock_written hcount' hnarrow'
    rw [← hblock', hread] at hread'
    have hsame := (Prod.mk.inj (Option.some.inj hread')).1
    exact (List.map_injective_iff.mpr Header.bytes_injective hsame).symm

/-- A policy with limits above what two bytes can hold. -/
def widePolicy : RequestFramePolicy where
  maxHeaderCount := 1000000
  maxHeaderNameBytes := 1000000
  maxHeaderValueBytes := 1000000
  maxSerializedHeadersBytes := 1000000

/-- A repeated name, with a value that is not UTF-8. -/
def repeatedCookies : List Header := [⟨"cookie".toList, [0xFF]⟩, ⟨"cookie".toList, []⟩]

theorem repeatedCookies_block :
    readHeaderBlock (leBytes 2 2 ++ repeatedCookies.flatMap entryBytes) =
      some (repeatedCookies.map Header.bytes, []) :=
  (@header_block_faithful repeatedCookies widePolicy _ (by decide +kernel)).1

end Synvoid.Plugin
