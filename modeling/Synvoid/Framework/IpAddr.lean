import Synvoid.Framework.RustStr

/-! # IP addresses

    `std::net::IpAddr` with its `FromStr` and `Display`. Different texts can be
    read as the same address; `IpAddr.Canonical` is the text that is written
    back.
-/

namespace Synvoid.Framework

inductive IpAddr where
  | v4 (octets : { octets : Bytes // octets.length = 4 })
  | v6 (octets : { octets : Bytes // octets.length = 16 })
  deriving DecidableEq

/-- `IpAddr::from_str`. -/
def IpAddr.parse (s : Str) : Option IpAddr :=
  match h4 : parseIpv4 s with
  | some octets => some (.v4 ⟨octets, length_of_parseIpv4 h4⟩)
  | none =>
      match h6 : parseIpv6 s with
      | some octets => some (.v6 ⟨octets, length_of_parseIpv6 h6⟩)
      | none => none

/-- `Ipv6Addr::segments`. -/
def segments : Bytes → List UInt16
  | hi :: lo :: rest => u16FromBe hi lo :: segments rest
  | _ => []

/-- A number in lower-case hexadecimal digits. -/
def hexadecimal (n : Nat) : Str := Nat.toDigits 16 n

def fmtIpv4 (octets : Bytes) : Str := ['.'].intercalate (octets.map fun b => decimal b.toNat)

/-- Segments behind one another, with colons between them. -/
def fmtSubslice (chunk : List UInt16) : Str :=
  [':'].intercalate (chunk.map fun segment => hexadecimal segment.toNat)

/-- A range of segments. -/
structure Span where
  start : Nat
  len : Nat
  deriving DecidableEq

/-- The first of the longest runs of zeros, while `current` ends at `i`. -/
def longestZeros : Nat → Span → Span → List UInt16 → Span
  | _, longest, _, [] => longest
  | i, longest, current, segment :: rest =>
      if segment = 0 then
        let start := if current.len = 0 then i else current.start
        let current := { start, len := current.len + 1 }
        longestZeros (i + 1) (if longest.len < current.len then current else longest) current rest
      else longestZeros (i + 1) longest ⟨0, 0⟩ rest

/-- `Display` of an IPv6 address: an IPv4-mapped address ends in the text of the
    IPv4 address, and elsewhere the longest run of at least two zeros is left
    out. -/
def fmtIpv6 (octets : Bytes) : Str :=
  if octets.take 12 = List.replicate 10 0 ++ [255, 255] then
    "::ffff:".toList ++ fmtIpv4 (octets.drop 12)
  else
    let segments := segments octets
    let zeroes := longestZeros 0 ⟨0, 0⟩ ⟨0, 0⟩ segments
    if zeroes.len > 1 then
      fmtSubslice (segments.take zeroes.start) ++ "::".toList ++
        fmtSubslice (segments.drop (zeroes.start + zeroes.len))
    else fmtSubslice segments

def IpAddr.display : IpAddr → Str
  | .v4 octets => fmtIpv4 octets.1
  | .v6 octets => fmtIpv6 octets.1

/-- The text of an address as it is written. -/
def IpAddr.Canonical (s : Str) : Prop := (IpAddr.parse s).map IpAddr.display = some s

instance (s : Str) : Decidable (IpAddr.Canonical s) :=
  inferInstanceAs (Decidable ((IpAddr.parse s).map IpAddr.display = some s))

example : (IpAddr.parse "2001:DB8:0:0:1:0:0:1".toList).map IpAddr.display =
    some "2001:db8::1:0:0:1".toList := by decide

example : (IpAddr.parse "::FFFF:a01:2".toList).map IpAddr.display =
    some "::ffff:10.1.0.2".toList := by decide

/-! ### Reading what is written -/

theorem hexDigit_digitChar {n : Nat} (h : n < 16) : hexDigit n.digitChar = some n := by
  have hall : ∀ n < 16, hexDigit n.digitChar = some n := by decide
  exact hall n h

theorem hexValue_concat (s : Str) (c : Char) :
    hexValue (s ++ [c]) = hexValue s * 16 + (hexDigit c).getD 0 := by
  simp [hexValue]

/-- The digits of a number, and their value. -/
theorem hexadecimal_digits (n : Nat) :
    (∀ c ∈ hexadecimal n, (hexDigit c).isSome = true) ∧ hexValue (hexadecimal n) = n := by
  unfold hexadecimal
  induction n using Nat.strong_induction_on with
  | _ n ih =>
    rw [Nat.toDigits_eq_if (by decide)]
    split
    · next hlt =>
      refine ⟨?_, ?_⟩
      · simp [hexDigit_digitChar hlt]
      · simp [hexValue, hexDigit_digitChar hlt]
    · next hge =>
      have hmod : n % 16 < 16 := Nat.mod_lt _ (by decide)
      obtain ⟨hdigits, hvalue⟩ := ih (n / 16) (by omega)
      refine ⟨?_, ?_⟩
      · intro c hc
        rcases List.mem_append.mp hc with hc | hc
        · exact hdigits c hc
        · obtain rfl : c = (n % 16).digitChar := by simpa using hc
          simp [hexDigit_digitChar hmod]
      · rw [hexValue_concat, hvalue, hexDigit_digitChar hmod, Option.getD_some]
        omega

/-- What is taken from a text stops where the next part starts. -/
theorem takeWhile_part {p : Char → Bool} {part rest : Str} (hpart : ∀ c ∈ part, p c = true)
    (hrest : ∀ c ∈ rest.head?, p c = false) :
    (part ++ rest).takeWhile p = part ∧ (part ++ rest).dropWhile p = rest := by
  rw [List.takeWhile_append_of_pos hpart, List.dropWhile_append_of_pos hpart]
  cases rest with
  | nil => simp
  | cons c rest =>
    have hc : p c = false := hrest c rfl
    simp [hc]

theorem readGroup_hexadecimal {n : Nat} (hn : n < 65536) {rest : Str}
    (hrest : ∀ c ∈ rest.head?, hexDigit c = none) :
    readGroup (hexadecimal n ++ rest) = some (UInt16.ofNat n, rest) := by
  obtain ⟨hdigits, hvalue⟩ := hexadecimal_digits n
  have hstop : ∀ c ∈ rest.head?, (hexDigit c).isSome = false := fun c hc => by simp [hrest c hc]
  obtain ⟨htake, hdrop⟩ := takeWhile_part hdigits hstop
  have hlength : (hexadecimal n).length ≤ 4 :=
    (Nat.length_toDigits_le_iff (by decide) (by decide)).mpr hn
  have hne : hexadecimal n ≠ [] := Nat.toDigits_ne_nil
  unfold readGroup
  simp only [htake, hdrop, hvalue]
  rw [if_pos ⟨hne, hlength⟩]

theorem readOctet_decimal (b : UInt8) {rest : Str} (hrest : ∀ c ∈ rest.head?, c.isDigit = false) :
    readOctet (decimal b.toNat ++ rest) = some (b, rest) := by
  have hshape : ∀ n < 256, decimal n ≠ [] ∧ (decimal n).length ≤ 3 ∧
      ((decimal n).head? = some '0' → (decimal n).length = 1) := by
    decide +kernel
  obtain ⟨hne, hlength, hzero⟩ := hshape b.toNat b.toNat_lt
  have hdigits : ∀ c ∈ decimal b.toNat, c.isDigit = true := fun _ hc => isDigit_of_mem_decimal hc
  obtain ⟨htake, hdrop⟩ := takeWhile_part hdigits hrest
  have hle : b.toNat ≤ 255 := Nat.le_of_lt_succ b.toNat_lt
  unfold readOctet
  simp only [htake, hdrop, decimalValue_decimal]
  rw [if_pos ⟨hne, hlength, hzero, hle⟩, UInt8.ofNat_toNat]

/-- An IPv4 address that is written is read up to its end. -/
theorem readIpv4_fmtIpv4 {octets : Bytes} (h : octets.length = 4) :
    readIpv4 (fmtIpv4 octets) = some (octets, []) := by
  obtain ⟨a, b, c, d, rfl⟩ : ∃ a b c d, octets = [a, b, c, d] := by
    match octets, h with
    | [a, b, c, d], _ => exact ⟨a, b, c, d, rfl⟩
  have htext : fmtIpv4 [a, b, c, d] = decimal a.toNat ++ '.' :: (decimal b.toNat ++
      '.' :: (decimal c.toNat ++ '.' :: (decimal d.toNat ++ []))) := by
    simp [fmtIpv4, List.intercalate]
  have hdot : ∀ rest : Str, ∀ c ∈ ('.' :: rest).head?, c.isDigit = false := by
    intro rest c hc
    obtain rfl : '.' = c := by simpa using hc
    rfl
  unfold readIpv4
  rw [htext, readOctet_decimal a (hdot _)]
  simp only [Option.bind_eq_bind, Option.bind_some, readChar, if_true,
    readOctet_decimal b (hdot _), readOctet_decimal c (hdot _)]
  rw [readOctet_decimal d (by simp)]
  rfl

theorem parseIpv4_fmtIpv4 {octets : Bytes} (h : octets.length = 4) :
    parseIpv4 (fmtIpv4 octets) = some octets := by
  unfold parseIpv4
  rw [readIpv4_fmtIpv4 h]

/-- An IPv4 address has dots. -/
theorem dot_mem_of_readIpv4 {s : Str} (h : (readIpv4 s).isSome = true) : '.' ∈ s := by
  obtain ⟨r, hr⟩ := Option.isSome_iff_exists.mp h
  unfold readIpv4 at hr
  simp only [Option.bind_eq_bind, Option.bind_eq_some_iff] at hr
  obtain ⟨⟨a, s'⟩, hoctet, -, ⟨t, hdot, -⟩, -⟩ := hr
  unfold readOctet at hoctet
  simp only at hoctet
  split at hoctet
  · obtain ⟨-, rfl⟩ := Prod.mk.inj (Option.some.inj hoctet)
    have hmem : '.' ∈ s.dropWhile Char.isDigit := by
      cases hs : s.dropWhile Char.isDigit with
      | nil => simp [hs, readChar] at hdot
      | cons c rest =>
        rw [hs] at hdot
        simp only [readChar] at hdot
        split at hdot
        · next hc => simp [hc]
        · cases hdot
    exact (List.dropWhile_suffix _).subset hmem
  · cases hoctet

/-- The text of groups behind others, or of the first ones. -/
def groupText (first : Bool) (chunk : List UInt16) : Str :=
  if first = true ∨ chunk = [] then fmtSubslice chunk else ':' :: fmtSubslice chunk

theorem fmtSubslice_cons (segment : UInt16) (rest : List UInt16) :
    fmtSubslice (segment :: rest) = hexadecimal segment.toNat ++ groupText false rest := by
  unfold groupText
  cases rest with
  | nil => simp [fmtSubslice, List.intercalate]
  | cons next rest => simp [fmtSubslice, List.intercalate]

theorem dot_notMem_fmtSubslice (chunk : List UInt16) : '.' ∉ fmtSubslice chunk := by
  induction chunk with
  | nil => simp [fmtSubslice, List.intercalate]
  | cons segment rest ih =>
    rw [fmtSubslice_cons]
    intro hmem
    rcases List.mem_append.mp hmem with hmem | hmem
    · have := (hexadecimal_digits segment.toNat).1 '.' hmem
      revert this
      decide
    · unfold groupText at hmem
      split at hmem
      · exact ih hmem
      · rcases List.mem_cons.mp hmem with hmem | hmem
        · revert hmem
          decide
        · exact ih hmem

/-- Where the groups of a text end: at its end or at `::`. -/
def EndsGroups (rest : Str) : Prop := rest = [] ∨ ∃ more, rest = ':' :: ':' :: more

/-- Without a dot there is no IPv4 address. -/
theorem readIpv4_eq_none {s : Str} (h : '.' ∉ s) : readIpv4 s = none := by
  by_contra hsome
  exact h (dot_mem_of_readIpv4 (Option.isSome_iff_ne_none.mpr hsome))

theorem readIpv4_of_head {c : Char} (hc : c.isDigit = false) (s : Str) :
    readIpv4 (c :: s) = none := by
  have hoctet : readOctet (c :: s) = none := by simp [readOctet, hc]
  unfold readIpv4
  rw [hoctet]
  rfl

theorem readGroup_colon (s : Str) : readGroup (':' :: s) = none := by
  have hcolon : hexDigit ':' = none := by decide
  simp [readGroup, hcolon]

theorem readGroups_of_endsGroups {rest : Str} (h : EndsGroups rest) (room : Nat) (first : Bool) :
    readGroups room first rest = ([], false, rest) := by
  have hempty : readIpv4 [] = none ∧ readGroup [] = none := by decide
  cases room with
  | zero => rfl
  | succ room =>
    unfold readGroups
    rcases h with rfl | ⟨more, rfl⟩
    · cases first <;> simp [readChar, hempty]
    · cases first <;> simp [readChar, readIpv4_of_head (show ':'.isDigit = false by decide),
        readGroup_colon]

/-- Groups that are written out, read up to where they end. -/
theorem readGroups_groupText {chunk : List UInt16} {room : Nat} (hroom : chunk.length ≤ room)
    (first : Bool) {rest : Str} (hdot : '.' ∉ rest) (hrest : EndsGroups rest) :
    readGroups room first (groupText first chunk ++ rest) = (chunk, false, rest) := by
  induction chunk generalizing room first with
  | nil =>
    have htext : groupText first [] = [] := by simp [groupText, fmtSubslice, List.intercalate]
    rw [htext, List.nil_append]
    exact readGroups_of_endsGroups hrest room first
  | cons segment more ih =>
    obtain ⟨room, rfl⟩ : ∃ k, room = k + 1 := ⟨room - 1, by simp at hroom; omega⟩
    -- behind the colon, if there is one, stands the text of the groups
    have hbody : (if first then some (groupText first (segment :: more) ++ rest)
        else readChar ':' (groupText first (segment :: more) ++ rest)) =
          some (fmtSubslice (segment :: more) ++ rest) := by
      cases first <;> simp [groupText, readChar]
    have hipv4 : readIpv4 (fmtSubslice (segment :: more) ++ rest) = none := by
      apply readIpv4_eq_none
      intro hmem
      exact (List.mem_append.mp hmem).elim (dot_notMem_fmtSubslice _) hdot
    have hgroup : readGroup (fmtSubslice (segment :: more) ++ rest) =
        some (segment, groupText false more ++ rest) := by
      rw [fmtSubslice_cons, List.append_assoc, readGroup_hexadecimal segment.toNat_lt,
        UInt16.ofNat_toNat]
      intro c hc
      have hcolon : c = ':' := by
        cases more with
        | nil =>
          rcases hrest with rfl | ⟨t, rfl⟩
          · simp [groupText, fmtSubslice, List.intercalate] at hc
          · simpa [groupText, fmtSubslice, List.intercalate, eq_comm] using hc
        | cons next more => simpa [groupText, eq_comm] using hc
      rw [hcolon]
      decide
    have htail := ih (show more.length ≤ room by simpa using hroom) false
    unfold readGroups
    simp only [hbody, Option.bind_some, hipv4, hgroup, ite_self, htail]

theorem flatMap_segments {octets : Bytes} (n : Nat) (h : octets.length = 2 * n) :
    (segments octets).flatMap u16ToBe = octets ∧ (segments octets).length = n := by
  induction n generalizing octets with
  | zero =>
    obtain rfl : octets = [] := List.length_eq_zero_iff.mp h
    exact ⟨rfl, rfl⟩
  | succ n ih =>
    match octets, h with
    | hi :: lo :: rest, h =>
      have hhalf : rest.length = 2 * n := by
        simp at h
        omega
      obtain ⟨hrest, hlength⟩ := ih hhalf
      refine ⟨?_, by simp [segments, hlength]⟩
      rw [segments, List.flatMap_cons, u16ToBe_u16FromBe, hrest]
      rfl

/-- An IPv6 address in eight groups is read back. -/
theorem parseIpv6_fmtSubslice {octets : Bytes} (h : octets.length = 16) :
    parseIpv6 (fmtSubslice (segments octets)) = some octets := by
  obtain ⟨hflat, hlength⟩ := flatMap_segments 8 h
  have hgroups := readGroups_groupText (Nat.le_of_eq hlength) true List.not_mem_nil (.inl rfl)
  unfold parseIpv6
  simp only [groupText, true_or, if_true, List.append_nil] at hgroups
  simp only [hgroups, hlength, if_true, hflat]

/-- A range of zeros. -/
def Span.Zeros (span : Span) (all : List UInt16) : Prop :=
  span.start + span.len ≤ all.length ∧
    (all.drop span.start).take span.len = List.replicate span.len 0

/-- A range of zeros gets longer by a zero behind it. -/
theorem Span.Zeros.snoc {all front rest : List UInt16} {span : Span}
    (hall : all = front ++ 0 :: rest)
    (h : span.Zeros all) (hend : span.start + span.len = front.length) :
    Span.Zeros ⟨span.start, span.len + 1⟩ all := by
  obtain ⟨hle, hzeros⟩ := h
  have hlen : span.start + (span.len + 1) ≤ all.length := by
    rw [hall, List.length_append, List.length_cons]
    omega
  refine ⟨hlen, ?_⟩
  have hnext : (all.drop span.start)[span.len]? = some 0 := by
    rw [List.getElem?_drop, hend, hall, List.getElem?_append_right (Nat.le_refl _), Nat.sub_self]
    rfl
  rw [List.take_add_one, hzeros, hnext, List.replicate_succ']
  rfl

/-- What `longestZeros` finds is a range of zeros. -/
theorem longestZeros_zeros {all front rest : List UInt16} {longest current : Span}
    (hall : all = front ++ rest) (hlongest : longest.Zeros all) (hcurrent : current.Zeros all)
    (hend : current.len = 0 ∨ current.start + current.len = front.length) :
    (longestZeros front.length longest current rest).Zeros all := by
  induction rest generalizing front longest current with
  | nil => exact hlongest
  | cons segment rest ih =>
    have hfront : all = (front ++ [segment]) ++ rest := by simp [hall]
    have hlength : (front ++ [segment]).length = front.length + 1 := by simp
    have hempty : Span.Zeros ⟨0, 0⟩ all := ⟨Nat.zero_le _, rfl⟩
    have hnext : ∀ {longest current : Span}, longest.Zeros all → current.Zeros all →
        (current.len = 0 ∨ current.start + current.len = front.length + 1) →
        (longestZeros (front.length + 1) longest current rest).Zeros all := by
      rw [← hlength]
      exact fun hl hc he => ih hfront hl hc he
    unfold longestZeros
    split
    · next hzero =>
      subst hzero
      -- the current range starts here, if there is none yet
      have hgrown : Span.Zeros
          ⟨if current.len = 0 then front.length else current.start, current.len + 1⟩ all := by
        split
        · next hnone =>
          have hhere : Span.Zeros ⟨front.length, 0⟩ all :=
            ⟨by simp [hall], by simp⟩
          rw [hnone]
          exact hhere.snoc hall rfl
        · next hsome => exact hcurrent.snoc hall (hend.resolve_left hsome)
      have hend : (if current.len = 0 then front.length else current.start) + (current.len + 1) =
          front.length + 1 := by
        split <;> omega
      apply hnext _ hgrown (.inr hend)
      by_cases hlen : longest.len < current.len + 1
      · simpa [hlen] using hgrown
      · simpa [hlen] using hlongest
    · exact hnext hlongest hempty (.inl rfl)

/-- An IPv6 address with a range of zeros left out is read back. -/
theorem parseIpv6_compressed {octets : Bytes} (h : octets.length = 16) {span : Span}
    (hzeros : span.Zeros (segments octets)) (hlen : 0 < span.len) :
    parseIpv6 (fmtSubslice ((segments octets).take span.start) ++ "::".toList ++
      fmtSubslice ((segments octets).drop (span.start + span.len))) = some octets := by
  obtain ⟨hflat, hlength⟩ := flatMap_segments 8 h
  obtain ⟨hle, hzeros⟩ := hzeros
  rw [hlength] at hle
  generalize htail : (segments octets).drop (span.start + span.len) = tail
  have htailLength : tail.length = 8 - (span.start + span.len) := by
    rw [← htail, List.length_drop, hlength]
  have hheadLength : ((segments octets).take span.start).length = span.start := by
    rw [List.length_take, hlength]
    omega
  have hheadRoom : ((segments octets).take span.start).length ≤ 8 := by omega
  have htailRoom : tail.length ≤ 8 - (span.start + 1) := by omega
  have hdot : '.' ∉ ':' :: ':' :: fmtSubslice tail := by
    simpa using dot_notMem_fmtSubslice tail
  have hhead := readGroups_groupText hheadRoom true hdot (.inr ⟨_, rfl⟩)
  have hrest := readGroups_groupText htailRoom true (List.not_mem_nil : '.' ∉ []) (.inl rfl)
  simp only [groupText, true_or, if_true, List.append_nil] at hhead hrest
  -- the groups that are left out are the zeros that are put in
  have hgroups : (segments octets).take span.start ++
      List.replicate (8 - (span.start + tail.length)) 0 ++ tail = segments octets := by
    have hcount : 8 - (span.start + tail.length) = span.len := by omega
    rw [hcount, ← hzeros, ← htail, List.append_assoc, ← List.drop_drop, List.take_append_drop,
      List.take_append_drop]
  have htext : fmtSubslice ((segments octets).take span.start) ++ "::".toList ++ fmtSubslice tail =
      fmtSubslice ((segments octets).take span.start) ++ ':' :: ':' :: fmtSubslice tail := by
    simp
  unfold parseIpv6
  rw [htext, hhead]
  have hne : ¬ span.start = 8 := by omega
  simp only [hheadLength, hne, if_false, Bool.false_eq_true, readChar, if_true, Option.bind_some,
    hrest, hgroups, hflat]

/-- A mapped IPv4 address is read back. -/
theorem parseIpv6_mapped {octets : Bytes} (h : octets.length = 4) :
    parseIpv6 ("::ffff:".toList ++ fmtIpv4 octets) =
      some (List.replicate 10 0 ++ [255, 255] ++ octets) := by
  have hread := readIpv4_fmtIpv4 h
  obtain ⟨a, b, c, d, rfl⟩ : ∃ a b c d, octets = [a, b, c, d] := by
    match octets, h with
    | [a, b, c, d], _ => exact ⟨a, b, c, d, rfl⟩
  generalize fmtIpv4 [a, b, c, d] = text at hread
  have hgroup : readGroup ('f' :: 'f' :: 'f' :: 'f' :: ':' :: text) =
      some (0xFFFF, ':' :: text) := by
    have hcolon : hexDigit ':' = none := by decide
    have hf : hexDigit 'f' = some 15 := by decide
    simp [readGroup, hcolon, hf, hexValue]
  -- behind the group of ones stands the IPv4 address
  have hlast : readGroups 6 false (':' :: text) =
      ([u16FromBe a b, u16FromBe c d], true, []) := by
    simp [readGroups, readChar, hread, byteAt]
  have hgroups : readGroups 7 true ('f' :: 'f' :: 'f' :: 'f' :: ':' :: text) =
      ([0xFFFF, u16FromBe a b, u16FromBe c d], true, []) := by
    unfold readGroups
    simp [readIpv4_of_head (show 'f'.isDigit = false by decide), hgroup, hlast]
  have hhead := readGroups_of_endsGroups
    (.inr ⟨'f' :: 'f' :: 'f' :: 'f' :: ':' :: text, rfl⟩) 8 true
  unfold parseIpv6
  have htext : "::ffff:".toList ++ text =
      ':' :: ':' :: 'f' :: 'f' :: 'f' :: 'f' :: ':' :: text := rfl
  rw [htext, hhead]
  simp [readChar, hgroups, u16ToBe_u16FromBe]
  rfl

/-- What `Display` writes is read back. -/
theorem parseIpv6_fmtIpv6 {octets : Bytes} (h : octets.length = 16) :
    parseIpv6 (fmtIpv6 octets) = some octets := by
  unfold fmtIpv6
  split
  · next hmapped =>
    rw [parseIpv6_mapped (by rw [List.length_drop, h]), ← hmapped, List.take_append_drop]
  · have hzeros : (longestZeros 0 ⟨0, 0⟩ ⟨0, 0⟩ (segments octets)).Zeros (segments octets) := by
      have hempty : Span.Zeros ⟨0, 0⟩ (segments octets) := ⟨Nat.zero_le _, rfl⟩
      exact longestZeros_zeros (List.nil_append _).symm hempty hempty (.inl rfl)
    simp only
    split
    · next hlen => exact parseIpv6_compressed h hzeros (by omega)
    · exact parseIpv6_fmtSubslice h

theorem dot_or_colon_fmtIpv6 (octets : Bytes) :
    '.' ∉ fmtIpv6 octets ∨ ∃ more, fmtIpv6 octets = ':' :: more := by
  unfold fmtIpv6
  split
  · exact .inr ⟨_, rfl⟩
  · left
    simp only
    split
    · intro hmem
      simp only [List.mem_append] at hmem
      rcases hmem with (hmem | hmem) | hmem
      · exact dot_notMem_fmtSubslice _ hmem
      · revert hmem
        decide
      · exact dot_notMem_fmtSubslice _ hmem
    · exact dot_notMem_fmtSubslice _

theorem parseIpv4_fmtIpv6 (octets : Bytes) : parseIpv4 (fmtIpv6 octets) = none := by
  have hread : readIpv4 (fmtIpv6 octets) = none := by
    rcases dot_or_colon_fmtIpv6 octets with hdot | ⟨more, htext⟩
    · exact readIpv4_eq_none hdot
    · rw [htext]
      exact readIpv4_of_head (by decide) more
  unfold parseIpv4
  rw [hread]

theorem parse_of_parseIpv4 {s : Str} {octets : Bytes} (h : parseIpv4 s = some octets) :
    IpAddr.parse s = some (.v4 ⟨octets, length_of_parseIpv4 h⟩) := by
  unfold IpAddr.parse
  split
  · next octets' h' =>
    obtain rfl : octets' = octets := Option.some.inj (h'.symm.trans h)
    rfl
  · next h' => exact absurd (h'.symm.trans h) (by simp)

theorem parse_of_parseIpv6 {s : Str} {octets : Bytes} (h4 : parseIpv4 s = none)
    (h : parseIpv6 s = some octets) :
    IpAddr.parse s = some (.v6 ⟨octets, length_of_parseIpv6 h⟩) := by
  unfold IpAddr.parse
  split
  · next h' => exact absurd (h'.symm.trans h4) (by simp)
  · split
    · next octets' h' =>
      obtain rfl : octets' = octets := Option.some.inj (h'.symm.trans h)
      rfl
    · next h' => exact absurd (h'.symm.trans h) (by simp)

/-- **An address that is written is read back.** -/
theorem parse_display (ip : IpAddr) : IpAddr.parse ip.display = some ip := by
  cases ip with
  | v4 octets => exact parse_of_parseIpv4 (parseIpv4_fmtIpv4 octets.2)
  | v6 octets => exact parse_of_parseIpv6 (parseIpv4_fmtIpv6 octets.1) (parseIpv6_fmtIpv6 octets.2)

/-! ### The characters of an address -/

/-- What `Display` writes. -/
def isAddressChar (c : Char) : Bool := (hexDigit c).isSome || c == '.' || c == ':'

theorem isAddressChar_cases {c : Char} (h : isAddressChar c = true) :
    (hexDigit c).isSome = true ∨ c = '.' ∨ c = ':' := by
  unfold isAddressChar at h
  simp only [Bool.or_eq_true, beq_iff_eq] at h
  tauto

theorem mem_intercalate {α : Type} {sep : List α} {l : List (List α)} {c : α}
    (h : c ∈ sep.intercalate l) : c ∈ sep ∨ ∃ part ∈ l, c ∈ part := by
  induction l with
  | nil => simp [List.intercalate] at h
  | cons part rest ih =>
    cases rest with
    | nil => exact .inr ⟨part, by simp, by simpa [List.intercalate] using h⟩
    | cons next rest =>
      rw [List.intercalate_cons_cons] at h
      simp only [List.mem_append] at h
      rcases h with (h | h) | h
      · exact .inr ⟨part, by simp, h⟩
      · exact .inl h
      · rcases ih h with h | ⟨other, hother, h⟩
        · exact .inl h
        · exact .inr ⟨other, List.mem_cons_of_mem _ hother, h⟩

theorem isAddressChar_fmtIpv4 {octets : Bytes} {c : Char} (h : c ∈ fmtIpv4 octets) :
    isAddressChar c = true := by
  rcases mem_intercalate h with h | ⟨part, hpart, h⟩
  · rw [List.mem_singleton.mp h]
    decide
  · obtain ⟨b, -, rfl⟩ := List.mem_map.mp hpart
    have hdigit := isDigit_of_mem_decimal h
    simp [isAddressChar, hexDigit, hdigit]

theorem isAddressChar_fmtSubslice {chunk : List UInt16} {c : Char} (h : c ∈ fmtSubslice chunk) :
    isAddressChar c = true := by
  rcases mem_intercalate h with h | ⟨part, hpart, h⟩
  · rw [List.mem_singleton.mp h]
    decide
  · obtain ⟨segment, -, rfl⟩ := List.mem_map.mp hpart
    have hdigit := (hexadecimal_digits segment.toNat).1 c h
    simp [isAddressChar, hdigit]

theorem isAddressChar_display {ip : IpAddr} {c : Char} (h : c ∈ ip.display) :
    isAddressChar c = true := by
  cases ip with
  | v4 octets => exact isAddressChar_fmtIpv4 h
  | v6 octets =>
    have hliteral : ∀ c ∈ "::ffff:".toList, isAddressChar c = true := by
      simp [isAddressChar, hexDigit]
    replace h : c ∈ fmtIpv6 octets.1 := h
    unfold fmtIpv6 at h
    split at h
    · rcases List.mem_append.mp h with h | h
      · exact hliteral c h
      · exact isAddressChar_fmtIpv4 h
    · simp only at h
      split at h
      · simp only [List.mem_append] at h
        rcases h with (h | h) | h
        · exact isAddressChar_fmtSubslice h
        · obtain rfl : c = ':' := by simpa using h
          decide
        · exact isAddressChar_fmtSubslice h
      · exact isAddressChar_fmtSubslice h

end Synvoid.Framework
