import Synvoid.Dns.TypeBitmap

/-! # Denials

    What the NSEC record of a denial says, and the hash of a name in an NSEC3
    record.

    `build_nsec_records` takes the name of the query for the owner, and a fixed
    list for the types of that name. So a denial of a type lists it if it is in
    that list, and a denial of a name has the name itself for its owner
    (`denialSound_iff`).

    `hash_name_nsec3` hashes the text of the name and not its wire form, once
    less than RFC 5155 says, and without the salt after the first time
    (`hashNameNsec3_ne`).
-/

namespace Synvoid.Dns

open Synvoid.Framework

/-! ### NSEC -/

/-- A record of the zone has this name. -/
def Zone.HasName (lib : Externals) (zone : Zone) (name : Str) : Prop :=
  ∃ key ∈ zone.records.keys, lib.toLowercase (fullName (zone.lowerOrigin lib) key.1) = name

/-- `name` is behind `owner` and before `next` in the order of names, in which the first follows
    the last. -/
def StrictlyBetween (owner name next : Str) : Prop :=
  if owner < next then owner < name ∧ name < next else owner < name ∨ name < next

/-- The types that an NSEC record lists. -/
def NsecParts.listed (parts : NsecParts) : List Nat :=
  decodeTypeBitmap (buildTypeBitmap parts.types)

/-- A denial of a type does not list it, and a denial of a name is made by the names around it. -/
def DenialSound (lib : Externals) (zone : Zone) (qname : Str) (qtype : RecordType) : Prop :=
  (isNodata zone qname qtype = true →
    qtype.code.toNat ∉ (nsecParts lib zone qname qtype).listed) ∧
  (¬ zone.HasName lib (queryName lib qname) →
    zone.HasName lib (nsecParts lib zone qname qtype).owner ∧
      StrictlyBetween (nsecParts lib zone qname qtype).owner (queryName lib qname)
        (nsecParts lib zone qname qtype).nextName)

/-- The types that are listed for every name. -/
def listedTypes : List UInt16 := [1, 2, 5, 6, 15, 16, 28, 33]

theorem mem_map_toNat {t : UInt16} {types : List UInt16} :
    t.toNat ∈ types.map UInt16.toNat ↔ t ∈ types :=
  List.mem_map_of_injective fun _ _ => UInt16.toNat_inj.mp

/-- Outside the zone four types are listed, and with them the one that is asked for if it is in
    `listedTypes`. -/
theorem mem_outside_iff {recordType : RecordType}
    (h : RecordType.ofCode recordType.code = recordType) :
    recordType.code.toNat ∈
        decodeTypeBitmap (buildTypeBitmap ([1, 2, 5, 6] ++ nsecTypes recordType)) ↔
      recordType.code ∈ listedTypes := by
  cases recordType with
  | other code =>
    -- a type with a name of its own is not of this form
    have hnamed : ∀ n ∈ [1, 2, 5, 6, 15, 16, 28], code ≠ n := by
      rintro n hn rfl
      simp only [List.mem_cons, List.not_mem_nil, or_false] at hn
      rcases hn with rfl | rfl | rfl | rfl | rfl | rfl | rfl <;> exact absurd h (by decide)
    by_cases hsrv : code = 33
    · subst hsrv
      decide
    · have hnone : nsecTypes (.other code) = [] := by
        unfold nsecTypes
        split <;> simp_all
      have hdecode : decodeTypeBitmap (buildTypeBitmap ([1, 2, 5, 6] ++ [])) =
          [(1 : UInt16), 2, 5, 6].map UInt16.toNat := by decide
      have hlisted : code ∉ listedTypes := by
        intro hmem
        simp only [listedTypes, List.mem_cons, List.not_mem_nil, or_false] at hmem
        rcases hmem with rfl | rfl | rfl | rfl | rfl | rfl | rfl | rfl
        all_goals first | exact hsrv rfl | exact hnamed _ (by simp) rfl
      change code.toNat ∈ _ ↔ code ∈ listedTypes
      rw [hnone, hdecode, mem_map_toNat]
      refine iff_of_false (fun hmem => hlisted ?_) hlisted
      exact List.mem_of_mem_take (i := 4) hmem
  | _ => decide

/-- Of the types in `listedTypes`, the one that is asked for is always listed. -/
theorem mem_listed_iff (lib : Externals) (zone : Zone) (qname : Str) (qtype : UInt16) :
    qtype.toNat ∈ (nsecParts lib zone qname (RecordType.ofCode qtype)).listed ↔
      qtype ∈ listedTypes := by
  unfold NsecParts.listed nsecParts
  split
  · have hdecode : decodeTypeBitmap (buildTypeBitmap [1, 2, 5, 6, 15, 16, 28, 33]) =
        listedTypes.map UInt16.toNat := by decide
    rw [hdecode, mem_map_toNat]
  · have hcode : RecordType.ofCode (RecordType.ofCode qtype).code = RecordType.ofCode qtype := by
      rw [RecordType.code_ofCode]
    have houtside := mem_outside_iff hcode
    rwa [RecordType.code_ofCode] at houtside

/-- **NSEC denials.** The record for a query is sound just when the zone has the name, and not a
    denial of one of the types that are always listed. -/
theorem denialSound_iff (lib : Externals) (zone : Zone) (qname : Str) (qtype : UInt16) :
    DenialSound lib zone qname (RecordType.ofCode qtype) ↔
      zone.HasName lib (queryName lib qname) ∧
        (isNodata zone qname (RecordType.ofCode qtype) = true → qtype ∉ listedTypes) := by
  unfold DenialSound
  rw [RecordType.code_ofCode, mem_listed_iff]
  constructor
  · rintro ⟨hnodata, hname⟩
    refine ⟨?_, hnodata⟩
    -- the owner is the name of the query
    by_contra hmissing
    exact hmissing (hname hmissing).1
  · rintro ⟨hname, hnodata⟩
    exact ⟨hnodata, fun hmissing => absurd hname hmissing⟩

/-- A zone with an address for `www`. -/
def addressZone : Zone :=
  { Zone.new "example.com".toList with
    records := Table.collect
      [(("www".toList, .a), [⟨"www".toList, .a, "1.2.3.4".toList, 300, none⟩])] }

/-- The denial of an IPv6 address lists IPv6 addresses, and the denial of another name is made
    by that name. -/
theorem unsound_denials :
    isNodata addressZone "www.example.com".toList .aaaa = true ∧
      28 ∈ (nsecParts asciiExternals addressZone "www.example.com".toList .aaaa).listed ∧
      ¬ DenialSound asciiExternals addressZone "www.example.com".toList .aaaa ∧
      (nsecParts asciiExternals addressZone "mail.example.com".toList .a).owner =
        "mail.example.com".toList ∧
      ¬ DenialSound asciiExternals addressZone "mail.example.com".toList .a := by
  have hnodata : isNodata addressZone "www.example.com".toList .aaaa = true := by decide +kernel
  have hlisted :
      28 ∈ (nsecParts asciiExternals addressZone "www.example.com".toList .aaaa).listed := by
    decide +kernel
  have howner : (nsecParts asciiExternals addressZone "mail.example.com".toList .a).owner =
      queryName asciiExternals "mail.example.com".toList := rfl
  have hmissing : ¬ addressZone.HasName asciiExternals
      (queryName asciiExternals "mail.example.com".toList) := by
    unfold Zone.HasName
    decide +kernel
  refine ⟨hnodata, hlisted, fun h => h.1 hnodata hlisted, by decide +kernel, fun h => ?_⟩
  exact hmissing (howner ▸ (h.2 hmissing).1)

/-! ### NSEC3 -/

/-- The hash of RFC 5155: the salt is put behind every value that is hashed. -/
def iteratedHash (hash : Bytes → Bytes) (x salt : Bytes) : Nat → Bytes
  | 0 => hash (x ++ salt)
  | n + 1 => hash (iteratedHash hash x salt n ++ salt)

/-- The canonical wire form of a name. -/
def canonicalWire (lib : Externals) (name : Str) : Bytes :=
  encodeLabels (labels (lib.toLowercase name)) ++ [0]

/-- The hash of a name is that of RFC 5155, whatever the hash function is. -/
def HashesByRfc5155 (lib : Externals) (name : Str) (config : Nsec3Config) : Prop :=
  ∀ hash : Bytes → Bytes,
    hashNameNsec3 lib ⟨hash, hash⟩ name config =
      iteratedHash hash (canonicalWire lib name) config.salt config.iterations.toNat

/-- A hash function of which the length of a value tells how often it was applied: at least
    `least` zeros, and one more each time. -/
def countingHash (least : Nat) (x : Bytes) : Bytes :=
  List.replicate (if x.length < least then least else x.length + 1) 0

theorem length_countingHash (least : Nat) (x : Bytes) :
    (countingHash least x).length = if x.length < least then least else x.length + 1 := by
  simp [countingHash]

theorem length_countingHash_iterate {least : Nat} {x : Bytes} (h : x.length < least) (n : Nat) :
    ((countingHash least)^[n + 1] x).length = least + n := by
  induction n with
  | zero => simp [length_countingHash, h]
  | succ n ih =>
    rw [Function.iterate_succ_apply', length_countingHash, ih, if_neg (by omega)]
    rfl

theorem length_iteratedHash {least : Nat} {x salt : Bytes} (h : (x ++ salt).length < least)
    (n : Nat) :
    (iteratedHash (countingHash least) x salt n).length = least + n * (salt.length + 1) := by
  induction n with
  | zero => rw [iteratedHash, length_countingHash, if_pos h, Nat.zero_mul, Nat.add_zero]
  | succ n ih =>
    rw [iteratedHash, length_countingHash, List.length_append, ih, if_neg (by omega), Nat.succ_mul]
    omega

/-- **NSEC3 hashes.** No name, salt and number of iterations is hashed as RFC 5155 says. -/
theorem hashNameNsec3_ne (lib : Externals) (name : Str) (config : Nsec3Config) :
    ¬ HashesByRfc5155 lib name config := by
  intro h
  let nameLower := lib.toLowercase name
  let rooted := (if nameLower.getLast? = some '.' then nameLower.dropLast else nameLower) ++ ['.']
  let text := utf8 rooted ++ config.salt
  let wire := canonicalWire lib name ++ config.salt
  -- long enough for both starts
  let least := text.length + wire.length + 1
  have heq := congrArg List.length (h (countingHash least))
  have hsame : nsec3Hash ⟨countingHash least, countingHash least⟩ config = countingHash least := by
    simp [nsec3Hash]
  have hcode : hashNameNsec3 lib ⟨countingHash least, countingHash least⟩ name config =
      (countingHash least)^[config.iterations.toNat] text := by
    rw [hashNameNsec3, hsame]
  have hwire : (canonicalWire lib name ++ config.salt).length < least := by
    change wire.length < text.length + wire.length + 1
    omega
  rw [hcode, length_iteratedHash hwire] at heq
  have htext : text.length < least := by
    change text.length < text.length + wire.length + 1
    omega
  cases hk : config.iterations.toNat with
  | zero =>
    rw [hk] at heq
    simp only [Function.iterate_zero, id_eq, Nat.zero_mul, Nat.add_zero] at heq
    omega
  | succ n =>
    rw [hk, length_countingHash_iterate htext, Nat.succ_mul] at heq
    have hgrows : n ≤ n * (config.salt.length + 1) := Nat.le_mul_of_pos_right n (Nat.succ_pos _)
    omega

/-- With no iterations the name is not hashed at all. -/
theorem no_iterations_no_hash :
    let hash : Bytes → Bytes := fun x => [UInt8.ofNat x.length]
    hashNameNsec3 asciiExternals ⟨hash, hash⟩ "a.b".toList ⟨1, 0, 0, [0xAA]⟩ =
        [0x61, 0x2E, 0x62, 0x2E, 0xAA] ∧
      iteratedHash hash (canonicalWire asciiExternals "a.b".toList) [0xAA] 0 = [6] ∧
      ¬ HashesByRfc5155 asciiExternals "a.b".toList ⟨1, 0, 0, [0xAA]⟩ := by
  refine ⟨by decide +kernel, by decide +kernel, fun h => ?_⟩
  have heq := h fun x => [UInt8.ofNat x.length]
  revert heq
  decide +kernel

end Synvoid.Dns
