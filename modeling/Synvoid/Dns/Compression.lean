import Synvoid.Dns.QuestionName
import Synvoid.Dns.Zone

/-! # Name compression

    Model of `DnsMessageCompressor` and of `decompress_name_in_place`
    (`synvoid-dns/src/compression.rs`).

    The compressor keeps the offset of every suffix that it has written and
    replaces a known suffix by a pointer to it. The decompressor ends a name that
    is not the root with a zero byte of its own, so nothing but the root is read
    back as it was written (`roundTrip_iff_roots`).
-/

namespace Synvoid.Dns

open Synvoid.Framework

/-! ### Compressor -/

def pointerBytes (offset : UInt16) : Bytes :=
  [0xC0 ||| UInt8.ofNat (offset.toNat / 256), UInt8.ofNat (offset.toNat % 256)]

/-- What is written for a name: labels, and a pointer or the root. -/
structure CompressedName where
  labels : List Str
  pointer : Option UInt16

/-- The end of a name, the pointer or the root. -/
def CompressedName.tail (name : CompressedName) : Bytes :=
  (name.pointer.map pointerBytes).getD [0]

def CompressedName.bytes (name : CompressedName) : Bytes := encodeLabels name.labels ++ name.tail

/-- The text of some labels. -/
def joinDots (parts : List Str) : Str := ['.'].intercalate parts

structure DnsMessageCompressor where
  labels : Table Str UInt16
  currentOffset : Nat

namespace DnsMessageCompressor

def new : DnsMessageCompressor where
  labels := ∅
  currentOffset := 12

def advance (compressor : DnsMessageCompressor) (written : Nat) : DnsMessageCompressor :=
  { compressor with currentOffset := compressor.currentOffset + written }

variable (lib : Externals)

/-- The key of a suffix. -/
def suffixKey (parts : List Str) : Str := lib.toLowercase (joinDots parts)

/-- `entry(suffix).or_insert(current_offset as u16)`. -/
def register (compressor : DnsMessageCompressor) (parts : List Str) : DnsMessageCompressor :=
  if (compressor.labels.lookup (suffixKey lib parts)).isSome then compressor
  else
    { compressor with
      labels := compressor.labels.insert (suffixKey lib parts)
        (UInt16.ofNat compressor.currentOffset) }

/-- Writes the first labels and registers the suffixes that start with them. -/
def writeLabels : Nat → List Str → DnsMessageCompressor → DnsMessageCompressor
  | literalEnd + 1, part :: rest, compressor =>
      writeLabels literalEnd rest
        ((compressor.register lib (part :: rest)).advance (1 + byteLen part))
  | _, _, compressor => compressor

def compressName (compressor : DnsMessageCompressor) (name : Str) :
    CompressedName × DnsMessageCompressor :=
  let name := trimEndMatches '.' name
  if name = [] then (⟨[], none⟩, compressor.advance 1)
  else
    match compressor.labels.lookup (lib.toLowercase name) with
    | some offset => (⟨[], some offset⟩, compressor.advance 2)
    | none =>
        let parts := name.splitOn '.'
        let compressionStart := (List.range parts.length).find? fun i =>
          (compressor.labels.lookup (suffixKey lib (parts.drop i))).isSome
        let written := compressor.writeLabels lib (compressionStart.getD parts.length) parts
        match compressionStart with
        | some i =>
            (⟨parts.take i, written.labels.lookup (suffixKey lib (parts.drop i))⟩,
              written.advance 2)
        | none => (⟨parts, none⟩, written.advance 1)

/-- The names one behind the other. -/
def compressNames : List Str → DnsMessageCompressor → List CompressedName
  | [], _ => []
  | name :: names, compressor =>
      let (written, compressor') := compressor.compressName lib name
      written :: compressNames names compressor'

end DnsMessageCompressor

/-- A message of a header and names. -/
def namesMessage (header : Bytes) (written : List CompressedName) : Bytes :=
  header ++ written.flatMap CompressedName.bytes

/-! ### Decompressor -/

/-- Another label of a name, behind a dot. -/
def joinBytes (result label : Bytes) : Bytes :=
  (if result = [] then [] else result ++ [0x2E]) ++ label

/-- The loop of `decompress_name_in_place`. -/
def decompressFrom (data : Bytes) : Nat → Nat → Nat → Bytes → Except Str (Bytes × Nat)
  | 0, _, _, _ => .error "Too many jumps".toList
  | fuel + 1, pos, jumps, result =>
      if jumps > maxJumps then .error "Too many jumps".toList
      else if pos ≥ data.length then .error "Out of bounds".toList
      else
        let len := byteAt data pos
        -- the root adds a zero byte to a name that is not empty
        if len = 0 then .ok (if result = [] then [] else result ++ [0], pos + 1)
        else if len &&& 0xC0 = 0xC0 then
          let offset := (len &&& 0x3F).toNat * 256 + (byteAt data (pos + 1)).toNat
          if pos + 1 ≥ data.length then .error "Invalid pointer".toList
          else if offset ≥ pos then .error "Compression pointer must point backwards".toList
          else decompressFrom data fuel offset (jumps + 1) result
        else if pos + 1 + len.toNat > data.length then .error "Invalid label".toList
        else
          decompressFrom data fuel (pos + 1 + len.toNat) jumps
            (joinBytes result (slice data (pos + 1) (pos + 1 + len.toNat)))

/-- At most eleven jumps, and behind each at most one step for each byte. -/
def decompressNameInPlace (data : Bytes) (startPos : Nat) : Except Str (Str × Nat) :=
  (decompressFrom data ((maxJumps + 2) * (data.length + 1)) startPos 0 []).map fun (result, pos) =>
    (fromUtf8Lossy result, pos)

/-! ### Round trip -/

/-- Labels that are not empty, of at most 63 bytes and without dots. -/
def ValidLabels (name : List Str) : Prop := ∀ l ∈ name, l ≠ [] ∧ byteLen l ≤ 63 ∧ '.' ∉ l

def SameUpToCase (s t : Str) : Prop := s.map Char.toLower = t.map Char.toLower

/-- Every pointer leads back into the message, below 0x4000, and every name is
    read back at the place where it was written. -/
structure RoundTrip (lib : Externals) (header : Bytes) (names : List (List Str)) : Prop where
  pointers : ∀ front name rest offset,
    DnsMessageCompressor.compressNames lib (names.map joinDots) .new = front ++ name :: rest →
    name.pointer = some offset →
    offset.toNat < 0x4000 ∧
      offset.toNat < (namesMessage header front).length + (encodeLabels name.labels).length
  decodes : ∀ front name rest, names = front ++ name :: rest →
    ∃ text stop,
      let written := DnsMessageCompressor.compressNames lib (names.map joinDots) .new
      decompressNameInPlace (namesMessage header written)
        (namesMessage header (written.take front.length)).length = .ok (text, stop) ∧
      SameUpToCase text (joinDots name)

/-! ### Names that are written in full -/

theorem trimEndMatches_of_getLast {c : Char} {s : Str} (h : s.getLast? ≠ some c) :
    trimEndMatches c s = s := by
  unfold trimEndMatches
  rcases List.eq_nil_or_concat s with rfl | ⟨s, d, rfl⟩
  · rfl
  · rw [List.concat_eq_append] at h ⊢
    refine List.rdropWhile_concat_neg _ _ _ ?_
    simpa using h

theorem joinDots_cons_cons (l m : Str) (ls : List Str) :
    joinDots (l :: m :: ls) = l ++ '.' :: joinDots (m :: ls) := by
  simp [joinDots, List.intercalate]

theorem joinDots_ne_nil {name : List Str} (hvalid : ValidLabels name) (hne : name ≠ []) :
    joinDots name ≠ [] := by
  cases name with
  | nil => exact absurd rfl hne
  | cons l ls =>
    cases ls with
    | nil => simpa [joinDots, List.intercalate] using (hvalid l (by simp)).1
    | cons m ls => simp [joinDots_cons_cons]

theorem getLast_joinDots {name : List Str} (hvalid : ValidLabels name) :
    (joinDots name).getLast? ≠ some '.' := by
  induction name with
  | nil => simp [joinDots, List.intercalate]
  | cons l ls ih =>
    obtain ⟨hne, -, hdot⟩ := hvalid l (by simp)
    cases ls with
    | nil =>
      intro hlast
      simp only [joinDots, List.intercalate] at hlast
      exact hdot (by simpa using List.mem_of_getLast? hlast)
    | cons m ls =>
      have htail := ih fun k hk => hvalid k (by simp [hk])
      have hjoin := joinDots_ne_nil (fun k hk => hvalid k (by simp [hk])) (List.cons_ne_nil m ls)
      rw [joinDots_cons_cons]
      rw [List.getLast?_append_cons, List.getLast?_cons_of_ne_nil hjoin]
      exact htail

namespace DnsMessageCompressor

variable (lib : Externals)

/-- The root is a byte and registers nothing. -/
theorem compressName_root (compressor : DnsMessageCompressor) :
    compressor.compressName lib (joinDots []) = (⟨[], none⟩, compressor.advance 1) := rfl

/-- The first name that is not the root is written in full. -/
theorem compressName_first (compressor : DnsMessageCompressor) (hempty : compressor.labels = ∅)
    {name : List Str} (hvalid : ValidLabels name) (hne : name ≠ []) :
    ∃ compressor', compressor.compressName lib (joinDots name) = (⟨name, none⟩, compressor') := by
  have htrim : trimEndMatches '.' (joinDots name) = joinDots name :=
    trimEndMatches_of_getLast (getLast_joinDots hvalid)
  have hsplit : (joinDots name).splitOn '.' = name :=
    List.splitOn_intercalate '.' (fun l hl => (hvalid l hl).2.2) hne
  have hlookup : ∀ key, (∅ : Table Str UInt16).lookup key = none := fun key =>
    AList.lookup_empty key
  have hfind : (List.range name.length).find? (fun _ => (none : Option UInt16).isSome) = none := by
    simp
  unfold compressName
  simp only [htrim]
  rw [if_neg (joinDots_ne_nil hvalid hne)]
  simp only [hsplit, hempty, hlookup, hfind]
  exact ⟨_, rfl⟩

/-- Roots in front of the rest. -/
theorem compressNames_roots (n : Nat) (names : List (List Str))
    (compressor : DnsMessageCompressor) :
    compressNames lib ((List.replicate n [] ++ names).map joinDots) compressor =
      List.replicate n ⟨[], none⟩ ++
        compressNames lib (names.map joinDots) (compressor.advance n) := by
  induction n generalizing compressor with
  | zero => rfl
  | succ n ih =>
    rw [List.replicate_succ, List.replicate_succ, List.cons_append, List.cons_append, List.map_cons,
      compressNames, compressName_root]
    simp only
    rw [ih, advance, advance, advance]
    simp only [Nat.add_assoc, Nat.add_comm 1 n]

end DnsMessageCompressor

/-! ### Reading labels back -/

theorem utf8_joinLabel (name label : Str) :
    utf8 (joinLabel name label) = joinBytes (utf8 name) (utf8 label) := by
  unfold joinLabel joinBytes
  by_cases hname : name = []
  · simp [hname]
  · have hutf8 : utf8 name ≠ [] := fun hnil =>
      hname (byteLen_eq_zero.mp (by rw [← length_utf8, hnil]; rfl))
    rw [if_neg hname, if_neg hutf8, utf8_append, utf8_append]
    rfl

/-- Labels that are joined one by one. -/
theorem foldl_joinLabel {l : Str} (hne : l ≠ []) (ls : List Str) :
    ls.foldl joinLabel l = joinDots (l :: ls) := by
  induction ls generalizing l with
  | nil => simp [joinDots, List.intercalate]
  | cons m ls ih =>
    rw [List.foldl_cons, joinLabel, if_neg hne, ih (by simp), joinDots_cons_cons]
    cases ls with
    | nil => simp [joinDots, List.intercalate]
    | cons k ls => simp [joinDots_cons_cons]

/-- A label is read and joined. -/
theorem decompressFrom_label {l : Str} (hne : l ≠ []) (hle : byteLen l ≤ 63) (front rest : Bytes)
    (fuel jumps : Nat) (hjumps : jumps ≤ maxJumps) (result : Bytes) :
    decompressFrom (front ++ (encodeLabel l ++ rest)) (fuel + 1) front.length jumps result =
      decompressFrom (front ++ (encodeLabel l ++ rest)) fuel (front ++ encodeLabel l).length jumps
        (joinBytes result (utf8 l)) := by
  have hbyte := byteAt_encodeLabel front l rest
  have hnat : (UInt8.ofNat (byteLen l)).toNat = byteLen l := toNat_ofNat_lt (by omega)
  have hpos : byteLen l ≠ 0 := fun h0 => hne (byteLen_eq_zero.mp h0)
  have hnonzero : UInt8.ofNat (byteLen l) ≠ 0 := by
    intro h0
    rw [h0] at hnat
    simp at hnat
    omega
  have hlength : (front ++ encodeLabel l).length = front.length + 1 + byteLen l := by
    simp
    omega
  rw [decompressFrom, if_neg (Nat.not_lt.mpr hjumps), if_neg (by simp)]
  simp only [hbyte, hnat]
  rw [if_neg hnonzero, if_neg (not_pointer (by omega)), if_neg (by simp; omega), slice_encodeLabel,
    hlength]

/-- Labels that are written in full are read up to the root. -/
theorem decompressFrom_labels {ls : List Str} (hvalid : ValidLabels ls) (front rest : Bytes)
    {fuel : Nat} (hfuel : ls.length < fuel) (result : Str) (hresult : result ≠ [] ∨ ls ≠ []) :
    ∃ stop, decompressFrom (front ++ (encodeLabels ls ++ 0 :: rest)) fuel front.length 0
      (utf8 result) = .ok (utf8 (ls.foldl joinLabel result) ++ [0], stop) := by
  induction ls generalizing front fuel result with
  | nil =>
    obtain ⟨fuel, rfl⟩ : ∃ n, fuel = n + 1 := ⟨fuel - 1, by simp at hfuel; omega⟩
    have hresult : result ≠ [] := hresult.resolve_right (by simp)
    have hutf8 : utf8 result ≠ [] := fun hnil =>
      hresult (byteLen_eq_zero.mp (by rw [← length_utf8, hnil]; rfl))
    have hbyte : byteAt (front ++ (encodeLabels [] ++ 0 :: rest)) front.length = 0 := by
      simp [byteAt]
    rw [decompressFrom, if_neg (by simp), if_neg (by simp)]
    simp only [hbyte]
    rw [if_pos trivial, if_neg hutf8]
    exact ⟨_, rfl⟩
  | cons l ls ih =>
    obtain ⟨fuel, rfl⟩ : ∃ n, fuel = n + 1 := ⟨fuel - 1, by simp at hfuel; omega⟩
    obtain ⟨hne, hle, -⟩ := hvalid l (by simp)
    have hjoined : joinLabel result l ≠ [] := by simp [joinLabel, hne]
    obtain ⟨stop, hstop⟩ := ih (fun k hk => hvalid k (by simp [hk])) (front ++ encodeLabel l)
      (by simpa using hfuel) (joinLabel result l) (.inl hjoined)
    refine ⟨stop, ?_⟩
    rw [encodeLabels_cons, List.append_assoc,
      decompressFrom_label hne hle front _ fuel 0 (Nat.zero_le _), ← utf8_joinLabel,
      List.foldl_cons,
      ← hstop, List.append_assoc]

/-- A name that is written in full is read with a zero behind it. -/
theorem decompressNameInPlace_literal {name : List Str} (hvalid : ValidLabels name)
    (hne : name ≠ [])
    (front rest : Bytes) :
    ∃ stop, decompressNameInPlace (front ++ (encodeLabels name ++ 0 :: rest)) front.length =
      .ok (joinDots name ++ [Char.ofNat 0], stop) := by
  have hfuel :
      name.length < (maxJumps + 2) * ((front ++ (encodeLabels name ++ 0 :: rest)).length + 1) := by
    have hle : name.length ≤ (encodeLabels name).length := by
      rw [length_encodeLabels, ← List.length_map fun l => byteLen l + 1]
      exact List.length_le_sum_of_one_le _ (by simp)
    simp [maxJumps]
    omega
  obtain ⟨stop, hstop⟩ := decompressFrom_labels hvalid front rest hfuel [] (.inr hne)
  refine ⟨stop, ?_⟩
  have htext : name.foldl joinLabel [] = joinDots name := by
    cases name with
    | nil => exact absurd rfl hne
    | cons l ls =>
      rw [List.foldl_cons, joinLabel, if_pos rfl, List.nil_append]
      exact foldl_joinLabel (hvalid l (by simp)).1 ls
  have hdecode : decompressFrom (front ++ (encodeLabels name ++ 0 :: rest))
      ((maxJumps + 2) * ((front ++ (encodeLabels name ++ 0 :: rest)).length + 1))
        front.length 0 [] =
      .ok (utf8 (joinDots name) ++ [0], stop) := by
    rw [← htext]
    exact hstop
  rw [decompressNameInPlace, hdecode]
  simp only [Except.map, fromUtf8Lossy_utf8_append]
  rfl

/-- The root is read back. -/
theorem decompressNameInPlace_root (front rest : Bytes) :
    ∃ stop, decompressNameInPlace (front ++ 0 :: rest) front.length = .ok (joinDots [], stop) := by
  obtain ⟨fuel, hfuel⟩ : ∃ fuel, (maxJumps + 2) * ((front ++ 0 :: rest).length + 1) = fuel + 1 :=
    ⟨(maxJumps + 2) * (front ++ 0 :: rest).length + maxJumps + 1, by ring⟩
  have hbyte : byteAt (front ++ 0 :: rest) front.length = 0 := by simp [byteAt]
  rw [decompressNameInPlace, hfuel, decompressFrom, if_neg (by simp), if_neg (by simp)]
  simp only [hbyte]
  exact ⟨_, rfl⟩

/-! ### The round trip -/

/-- A list starts with roots, which may be all of it. -/
theorem roots_or_first (names : List (List Str)) :
    (∀ name ∈ names, name = []) ∨
      ∃ n name rest, names = List.replicate n [] ++ name :: rest ∧ name ≠ [] := by
  induction names with
  | nil => exact .inl (by simp)
  | cons first names ih =>
    by_cases hfirst : first = []
    · rcases ih with hroots | ⟨n, name, rest, rfl, hne⟩
      · exact .inl (List.forall_mem_cons.mpr ⟨hfirst, hroots⟩)
      · exact .inr ⟨n + 1, name, rest, by rw [hfirst, List.replicate_succ]; rfl, hne⟩
    · exact .inr ⟨0, first, names, rfl, hfirst⟩

/-- A name that is not the root is not read back: the first one is written in
    full, and read with a zero behind it. -/
theorem roots_of_roundTrip {lib : Externals} {header : Bytes} {names : List (List Str)}
    (hvalid : ∀ name ∈ names, ValidLabels name) (h : RoundTrip lib header names) :
    ∀ name ∈ names, name = [] := by
  rcases roots_or_first names with hroots | ⟨n, name, rest, rfl, hne⟩
  · exact hroots
  · -- the first name that is not the root is written in full, and read with a zero
    exfalso
    have hname : ValidLabels name := hvalid name (by simp)
    obtain ⟨compressor', hfirst⟩ := DnsMessageCompressor.compressName_first lib
      (DnsMessageCompressor.new.advance n) rfl hname hne
    have hwritten : DnsMessageCompressor.compressNames lib
        ((List.replicate n [] ++ name :: rest).map joinDots) .new =
        List.replicate n ⟨[], none⟩ ++ ⟨name, none⟩ ::
          DnsMessageCompressor.compressNames lib (rest.map joinDots) compressor' := by
      rw [DnsMessageCompressor.compressNames_roots, List.map_cons,
        DnsMessageCompressor.compressNames, hfirst]
    obtain ⟨text, stop, hdecode, hsame⟩ := h.decodes _ name rest rfl
    rw [hwritten, List.length_replicate,
      List.take_left' (List.length_replicate (a := (⟨[], none⟩ : CompressedName)))] at hdecode
    have hmessage : ∀ more : List CompressedName,
        namesMessage header (List.replicate n ⟨[], none⟩ ++ ⟨name, none⟩ :: more) =
          namesMessage header (List.replicate n ⟨[], none⟩) ++
            (encodeLabels name ++ 0 :: more.flatMap CompressedName.bytes) := by
      intro more
      simp [namesMessage, CompressedName.bytes, CompressedName.tail]
    rw [hmessage] at hdecode
    obtain ⟨stop', hliteral⟩ := decompressNameInPlace_literal hname hne
      (namesMessage header (List.replicate n ⟨[], none⟩)) _
    rw [hliteral] at hdecode
    obtain ⟨rfl, -⟩ := Prod.mk.inj (Except.ok.inj hdecode)
    have hlength := congrArg List.length hsame
    simp at hlength

theorem roundTrip_roots (lib : Externals) (header : Bytes) {names : List (List Str)}
    (hroots : ∀ name ∈ names, name = []) : RoundTrip lib header names := by
  obtain ⟨n, rfl⟩ : ∃ n, names = List.replicate n [] :=
    ⟨names.length, List.eq_replicate_of_mem hroots⟩
  have hwritten : DnsMessageCompressor.compressNames lib ((List.replicate n []).map joinDots) .new =
      List.replicate n ⟨[], none⟩ := by
    have hall := DnsMessageCompressor.compressNames_roots lib n [] .new
    simpa [DnsMessageCompressor.compressNames] using hall
  constructor
  · intro front name rest offset hsplit hpointer
    have hmem : name ∈ List.replicate n (⟨[], none⟩ : CompressedName) := by
      rw [← hwritten, hsplit]
      simp
    rw [List.eq_of_mem_replicate hmem] at hpointer
    cases hpointer
  · intro front name rest hsplit
    have hlength := congrArg List.length hsplit
    rw [List.length_replicate, List.length_append, List.length_cons] at hlength
    obtain rfl : name = [] := hroots name (by rw [hsplit]; simp)
    have hmessage : namesMessage header (List.replicate n ⟨[], none⟩) =
        namesMessage header ((List.replicate n ⟨[], none⟩).take front.length) ++
          0 :: (List.replicate rest.length (⟨[], none⟩ : CompressedName)).flatMap
            CompressedName.bytes := by
      have hn : n = front.length + (1 + rest.length) := by omega
      rw [hn, List.replicate_add, List.take_left' List.length_replicate, List.replicate_add]
      simp [namesMessage, CompressedName.bytes, CompressedName.tail]
    obtain ⟨stop, hstop⟩ := decompressNameInPlace_root
      (namesMessage header ((List.replicate n ⟨[], none⟩).take front.length)) _
    refine ⟨[], stop, ?_, rfl⟩
    simp only [hwritten]
    rw [hmessage]
    exact hstop

/-- **Round trip**: it succeeds exactly if all names are the root. -/
theorem roundTrip_iff_roots (lib : Externals) (header : Bytes) (names : List (List Str))
    (hvalid : ∀ name ∈ names, ValidLabels name) :
    RoundTrip lib header names ↔ ∀ name ∈ names, name = [] :=
  ⟨roots_of_roundTrip hvalid, roundTrip_roots lib header⟩

/-- Two roots. -/
theorem roundTrip_iff_roots_two :
    RoundTrip asciiExternals (List.replicate 12 0) [[], []] :=
  (roundTrip_iff_roots asciiExternals (List.replicate 12 0) [[], []]
    (by simp [ValidLabels])).mpr (by simp)

/-- `example.com` is not read back. -/
theorem roundTrip_fails_example :
    ValidLabels ["example".toList, "com".toList] ∧
      ¬ RoundTrip asciiExternals (List.replicate 12 0) [["example".toList, "com".toList]] := by
  have hvalid : ValidLabels ["example".toList, "com".toList] := by
    unfold ValidLabels
    decide
  refine ⟨hvalid, fun h => ?_⟩
  have hroots := roots_of_roundTrip (by simpa using hvalid) h
  simp at hroots

end Synvoid.Dns
