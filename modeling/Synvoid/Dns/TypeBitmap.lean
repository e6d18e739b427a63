import Synvoid.Dns.DnssecRecords
import Synvoid.Framework.BitOrder

/-! # The type bitmap of NSEC and NSEC3 records

    A bitmap is a list of blocks, each with the high byte of its types and a
    string of bits for their low bytes. `build_type_bitmap` makes one from an
    ascending list of types, and `decodeTypeBitmap` reads it back.

    The window of a block is changed only when the block before it is written.
    The first block has none before it, so it keeps window 0 whatever its types
    are: the bitmap is that of the list just when the first type is below 256
    (`roundTrips_iff`).
-/

namespace Synvoid.Dns

open Synvoid.Framework

/-! ### Reading a bitmap -/

/-- The types of a block: bit `i` of byte `j` is the type with low byte `8 * j + i`. -/
def blockTypes (block : UInt8 × List UInt8) : List Nat :=
  ((List.range (8 * block.2.length)).filter (bitAt block.2)).map (256 * block.1.toNat + ·)

def decodeTypeBitmap (blocks : List (UInt8 × List UInt8)) : List Nat := blocks.flatMap blockTypes

theorem mem_blockTypes {block : UInt8 × List UInt8} {n : Nat} :
    n ∈ blockTypes block ↔ ∃ i, bitAt block.2 i = true ∧ n = 256 * block.1.toNat + i := by
  simp only [blockTypes, List.mem_map, List.mem_filter, List.mem_range]
  constructor
  · rintro ⟨i, ⟨-, hbit⟩, rfl⟩
    exact ⟨i, hbit, rfl⟩
  · rintro ⟨i, hbit, rfl⟩
    have hlt := lt_of_bitAt hbit
    exact ⟨i, ⟨by omega, hbit⟩, rfl⟩

/-- The blocks are a bitmap of these types: in ascending order, none of them empty or with a
    zero byte at its end, and with the bits of the types. -/
structure Encodes (blocks : List (UInt8 × List UInt8)) (types : List UInt16) : Prop where
  windows : (blocks.map Prod.fst).Pairwise (· < ·)
  ends : ∀ block ∈ blocks, block.2 ≠ [] ∧ block.2.getLast? ≠ some 0
  mem : ∀ n, n ∈ decodeTypeBitmap blocks ↔ ∃ t ∈ types, t.toNat = n

/-- What `build_type_bitmap` returns is a bitmap of its types. -/
def RoundTrips (types : List UInt16) : Prop := Encodes (buildTypeBitmap types) types

/-! ### One type -/

/-- The window of a type. -/
def typeWindow (t : UInt16) : UInt8 := (t / 256).toUInt8

theorem toNat_typeWindow (t : UInt16) : (typeWindow t).toNat = t.toNat / 256 := by
  have hlt := t.toNat_lt
  have h256 : (256 : UInt16).toNat = 256 := rfl
  rw [typeWindow, UInt16.toNat_toUInt8, UInt16.toNat_div, h256]
  exact Nat.mod_eq_of_lt (by omega)

theorem toNat_eq_window (t : UInt16) :
    t.toNat = 256 * (typeWindow t).toNat + t.toNat % 256 := by
  rw [toNat_typeWindow]
  omega

/-- The state with the finished blocks and the current one. -/
def BitmapState.all (s : BitmapState) : List (UInt8 × List UInt8) :=
  s.blocks ++ [(s.window, s.bits)]

/-- Adding a type sets its bit, in a new block if the window changes. -/
theorem BitmapState.add_eq (s : BitmapState) (t : UInt16) :
    s.add t =
      if typeWindow t ≠ s.window ∧ s.bits ≠ [] then
        ⟨s.all, typeWindow t, setBitAt [] (t.toNat % 256)⟩
      else ⟨s.blocks, s.window, setBitAt s.bits (t.toNat % 256)⟩ := by
  have hmask : (1 : UInt8) <<< (7 - t.toUInt8 % 8) = UInt8.ofNat (2 ^ (7 - t.toNat % 256 % 8)) := by
    have hresidue : t.toUInt8 % 8 = UInt8.ofNat (t.toNat % 256 % 8) := by
      apply UInt8.toNat_inj.mp
      rw [UInt8.toNat_mod, UInt16.toNat_toUInt8, UInt8.toNat_ofNat']
      have h8 : (8 : UInt8).toNat = 8 := rfl
      rw [h8]
      omega
    rw [hresidue]
    have hlt : t.toNat % 256 % 8 < 8 := Nat.mod_lt _ (by decide)
    generalize t.toNat % 256 % 8 = r at hlt
    interval_cases r <;> rfl
  unfold BitmapState.add
  simp only [hmask]
  change (_ : BitmapState) = if (t / 256).toUInt8 ≠ s.window ∧ s.bits ≠ [] then
    (⟨s.all, typeWindow t, setBitAt [] (t.toNat % 256)⟩ : BitmapState)
    else ⟨s.blocks, s.window, setBitAt s.bits (t.toNat % 256)⟩
  split_ifs <;> rfl

/-- A block of one more type. -/
theorem mem_blockTypes_setBitAt {window : UInt8} {bits : List UInt8} {i n : Nat} :
    n ∈ blockTypes (window, setBitAt bits i) ↔
      n ∈ blockTypes (window, bits) ∨ n = 256 * window.toNat + i := by
  simp only [mem_blockTypes, bitAt_setBitAt, Bool.or_eq_true, beq_iff_eq]
  constructor
  · rintro ⟨k, hk | rfl, rfl⟩
    · exact .inl ⟨k, hk, rfl⟩
    · exact .inr rfl
  · rintro (⟨k, hk, rfl⟩ | rfl)
    · exact ⟨k, .inl hk, rfl⟩
    · exact ⟨i, .inr rfl, rfl⟩

/-- A bit behind all others is in the last byte. -/
theorem setBitAt_ends (bits : List UInt8) (i : Nat) (h : bits.length ≤ i / 8 + 1) :
    (setBitAt bits i).length = i / 8 + 1 ∧ setBitAt bits i ≠ [] ∧
      (setBitAt bits i).getLast? ≠ some 0 := by
  have hlength : (setBitAt bits i).length = i / 8 + 1 := by
    rw [length_setBitAt]
    omega
  refine ⟨hlength, ?_, ?_⟩
  · intro hnil
    rw [hnil] at hlength
    cases hlength
  · refine getLast?_of_bitAt ?_ hlength.symm
    rw [bitAt_setBitAt]
    simp

/-- The blocks with the current one encode the types so far, and the current block is not
    longer than a block may be. -/
structure BitmapOf (s : BitmapState) (types : List UInt16) : Prop where
  encodes : Encodes s.all types
  fits : s.bits.length ≤ 32

theorem decodeTypeBitmap_append (blocks blocks' : List (UInt8 × List UInt8)) :
    decodeTypeBitmap (blocks ++ blocks') = decodeTypeBitmap blocks ++ decodeTypeBitmap blocks' :=
  List.flatMap_append

theorem decodeTypeBitmap_singleton (block : UInt8 × List UInt8) :
    decodeTypeBitmap [block] = blockTypes block := List.flatMap_singleton _ _

/-- The first type, if it is of window 0. -/
theorem bitmapOf_first {t : UInt16} (h : t < 256) :
    BitmapOf (BitmapState.add ⟨[], 0, []⟩ t) [t] := by
  have hlt : t.toNat < 256 := by simpa using UInt16.lt_iff_toNat_lt.mp h
  have hmod : t.toNat % 256 = t.toNat := Nat.mod_eq_of_lt hlt
  obtain ⟨hlength, hne, hlast⟩ :=
    setBitAt_ends [] t.toNat (Nat.zero_le _)
  rw [BitmapState.add_eq, if_neg (by simp), hmod]
  constructor
  · constructor
    · simp [BitmapState.all]
    · intro block hblock
      obtain rfl := List.mem_singleton.mp hblock
      exact ⟨hne, hlast⟩
    · intro n
      change n ∈ decodeTypeBitmap [((0 : UInt8), setBitAt [] t.toNat)] ↔ _
      rw [decodeTypeBitmap_singleton, mem_blockTypes_setBitAt, mem_blockTypes]
      simp [bitAt, eq_comm]
  · rw [hlength]
    omega

/-- The last bit of the current block is a type before. -/
theorem BitmapOf.exists_last {s : BitmapState} {types : List UInt16} (h : BitmapOf s types) :
    ∃ t ∈ types, t.toNat / 256 = s.window.toNat ∧ t.toNat % 256 / 8 + 1 = s.bits.length := by
  have hcurrent : (s.window, s.bits) ∈ s.all := by simp [BitmapState.all]
  obtain ⟨hne, hlast⟩ : s.bits ≠ [] ∧ s.bits.getLast? ≠ some 0 := h.encodes.ends _ hcurrent
  obtain ⟨i, hbit, hlength⟩ := exists_bitAt_of_getLast? hne hlast
  have hmem : 256 * s.window.toNat + i ∈ decodeTypeBitmap s.all :=
    List.mem_flatMap.mpr ⟨_, hcurrent, mem_blockTypes.mpr ⟨i, hbit, rfl⟩⟩
  obtain ⟨t, ht, heq⟩ := (h.encodes.mem _).mp hmem
  have hfits := h.fits
  exact ⟨t, ht, by omega, by omega⟩

theorem BitmapOf.add {s : BitmapState} {types : List UInt16} {t : UInt16}
    (h : BitmapOf s types) (ht : ∀ d ∈ types, d < t) : BitmapOf (s.add t) (types ++ [t]) := by
  obtain ⟨d, hd, hwindow, hlength⟩ := h.exists_last
  have hlt := UInt16.lt_iff_toNat_lt.mp (ht d hd)
  have htlt := t.toNat_lt
  have hsplit := toNat_eq_window t
  have hmem : ∀ n, n ∈ decodeTypeBitmap s.all ↔ ∃ d ∈ types, d.toNat = n := h.encodes.mem
  have hcurrent : s.bits ≠ [] :=
    (h.encodes.ends (s.window, s.bits) (by simp [BitmapState.all])).1
  have hadded : ∀ n, (∃ d ∈ types ++ [t], d.toNat = n) ↔
      (∃ d ∈ types, d.toNat = n) ∨ n = t.toNat := by
    intro n
    simp [or_and_right, exists_or, eq_comm]
  rw [BitmapState.add_eq]
  by_cases hnew : typeWindow t = s.window
  · -- the same window: the bit comes behind the others
    rw [if_neg (by simp [hnew])]
    have hsame : t.toNat / 256 = s.window.toNat := by rw [← hnew, toNat_typeWindow]
    obtain ⟨hlength', hne, hlast⟩ :=
      setBitAt_ends s.bits (t.toNat % 256) (by omega)
    refine ⟨⟨?_, ?_, ?_⟩, by rw [hlength']; omega⟩
    · simpa [BitmapState.all] using h.encodes.windows
    · intro block hblock
      rcases List.mem_append.mp hblock with hold | hlast'
      · exact h.encodes.ends block (List.mem_append_left _ hold)
      · obtain rfl := List.mem_singleton.mp hlast'
        exact ⟨hne, hlast⟩
    · intro n
      rw [hadded, ← hmem]
      simp only [BitmapState.all, decodeTypeBitmap_append, decodeTypeBitmap_singleton,
        List.mem_append, mem_blockTypes_setBitAt]
      have hvalue : t.toNat = 256 * s.window.toNat + t.toNat % 256 := hnew ▸ hsplit
      rw [← hvalue, or_assoc]
  · -- another window: it is a later one, and the block is new
    rw [if_pos ⟨hnew, hcurrent⟩]
    have hlater : s.window < typeWindow t := by
      rw [UInt8.lt_iff_toNat_lt, toNat_typeWindow]
      have hne : t.toNat / 256 ≠ s.window.toNat := by
        rw [← toNat_typeWindow]
        exact fun heq => hnew (UInt8.toNat_inj.mp heq)
      omega
    obtain ⟨hlength', hne, hlast⟩ :=
      setBitAt_ends [] (t.toNat % 256) (Nat.zero_le _)
    refine ⟨⟨?_, ?_, ?_⟩, by rw [hlength']; omega⟩
    · have hwindows := h.encodes.windows
      simp only [BitmapState.all, List.map_append, List.map_cons, List.map_nil] at hwindows ⊢
      rw [List.pairwise_append] at hwindows ⊢
      refine ⟨List.pairwise_append.mpr hwindows, List.pairwise_singleton _ _, ?_⟩
      intro window hw window' hw'
      obtain rfl := List.mem_singleton.mp hw'
      rcases List.mem_append.mp hw with hold | hlast'
      · exact UInt8.lt_trans (hwindows.2.2 window hold s.window (List.mem_singleton_self _)) hlater
      · rwa [List.mem_singleton.mp hlast']
    · intro block hblock
      rcases List.mem_append.mp hblock with hold | hlast'
      · exact h.encodes.ends block hold
      · obtain rfl := List.mem_singleton.mp hlast'
        exact ⟨hne, hlast⟩
    · intro n
      rw [hadded, ← hmem]
      change n ∈ decodeTypeBitmap (s.all ++ [(typeWindow t, setBitAt [] (t.toNat % 256))]) ↔ _
      rw [decodeTypeBitmap_append, decodeTypeBitmap_singleton, List.mem_append,
        mem_blockTypes_setBitAt, ← hsplit, mem_blockTypes]
      simp [bitAt]

/-! ### Whole lists -/

theorem bitmapOf_foldl {s : BitmapState} {types : List UInt16} (rest : List UInt16)
    (h : BitmapOf s types) (hsorted : (types ++ rest).Pairwise (· < ·)) :
    BitmapOf (rest.foldl BitmapState.add s) (types ++ rest) := by
  induction rest generalizing s types with
  | nil => simpa using h
  | cons t rest ih =>
    have hbefore : ∀ d ∈ types, d < t := fun d hd =>
      (List.pairwise_append.mp hsorted).2.2 d hd t List.mem_cons_self
    have hnext := ih (h.add hbefore) (by simpa using hsorted)
    simpa using hnext

/-- The block at the end is written as it is: it has no zero byte at its end. -/
theorem buildTypeBitmap_eq (types : List UInt16) {s : BitmapState}
    (hs : types.foldl BitmapState.add ⟨[], 0, []⟩ = s) (h : BitmapOf s types) :
    buildTypeBitmap types = s.all := by
  obtain ⟨hne, hlast⟩ := h.encodes.ends (s.window, s.bits) (by simp [BitmapState.all])
  have hkeep : s.bits.rdropWhile (· == 0) = s.bits := by
    rw [List.rdropWhile_eq_self_iff]
    intro hne' hzero
    apply hlast
    rw [List.getLast?_eq_some_getLast hne']
    simpa using hzero
  unfold buildTypeBitmap
  simp only [hs, hkeep, if_neg hne]
  rfl

theorem roundTrips_of_head {types : List UInt16} (hsorted : types.Pairwise (· < ·))
    (hfirst : ∀ t ∈ types.head?, t < 256) : RoundTrips types := by
  cases types with
  | nil =>
    refine ⟨List.Pairwise.nil, fun block hblock => ?_, fun n => ?_⟩
    · cases hblock
    · simp [buildTypeBitmap, decodeTypeBitmap]
  | cons t rest =>
    have hone := bitmapOf_first (hfirst t rfl)
    have hall := bitmapOf_foldl rest hone (by simpa using hsorted)
    unfold RoundTrips
    rw [buildTypeBitmap_eq (t :: rest) rfl hall]
    exact hall.encodes

/-- A bit of window 0 stays in the bitmap. -/
theorem mem_all_add {s : BitmapState} {n : Nat} (t : UInt16) (h : n ∈ decodeTypeBitmap s.all) :
    n ∈ decodeTypeBitmap (s.add t).all := by
  rw [BitmapState.add_eq]
  split
  · exact (decodeTypeBitmap_append s.all _).symm ▸ List.mem_append_left _ h
  · simp only [BitmapState.all, decodeTypeBitmap_append, decodeTypeBitmap_singleton,
      List.mem_append, mem_blockTypes_setBitAt] at h ⊢
    rcases h with h | h
    · exact .inl h
    · exact .inr (.inl h)

theorem mem_all_foldl {s : BitmapState} {n : Nat} (types : List UInt16)
    (h : n ∈ decodeTypeBitmap s.all) :
    n ∈ decodeTypeBitmap (types.foldl BitmapState.add s).all := by
  induction types generalizing s with
  | nil => exact h
  | cons t types ih => exact ih (mem_all_add t h)

/-- What is written at the end has the types of all blocks. -/
theorem mem_decode_buildTypeBitmap (types : List UInt16) (n : Nat) :
    n ∈ decodeTypeBitmap (buildTypeBitmap types) ↔
      n ∈ decodeTypeBitmap (types.foldl BitmapState.add ⟨[], 0, []⟩).all := by
  generalize hs : types.foldl BitmapState.add ⟨[], 0, []⟩ = s
  have htrim : n ∈ blockTypes (s.window, s.bits.rdropWhile (· == 0)) ↔
      n ∈ blockTypes (s.window, s.bits) := by
    simp only [mem_blockTypes, bitAt_rdropWhile]
  unfold buildTypeBitmap
  simp only [hs, BitmapState.all, decodeTypeBitmap_append, decodeTypeBitmap_singleton,
    List.mem_append, ← htrim]
  split
  · next hempty =>
    rw [hempty]
    simp [blockTypes]
  · rw [decodeTypeBitmap_append, decodeTypeBitmap_singleton, List.mem_append]

/-- The first type is written into window 0. -/
theorem mem_decode_first (t : UInt16) (rest : List UInt16) :
    t.toNat % 256 ∈ decodeTypeBitmap (buildTypeBitmap (t :: rest)) := by
  rw [mem_decode_buildTypeBitmap, List.foldl_cons]
  apply mem_all_foldl rest
  rw [BitmapState.add_eq, if_neg (by simp)]
  change _ ∈ decodeTypeBitmap [((0 : UInt8), setBitAt [] (t.toNat % 256))]
  rw [decodeTypeBitmap_singleton, mem_blockTypes_setBitAt]
  right
  simp

/-- **Round trip of the bitmap.** The bitmap of an ascending list is that of its types just when
    the first of them is below 256. -/
theorem roundTrips_iff {types : List UInt16} (hsorted : types.Pairwise (· < ·)) :
    RoundTrips types ↔ ∀ t ∈ types.head?, t < 256 := by
  constructor
  · intro h t hfirst
    cases types with
    | nil => cases hfirst
    | cons first rest =>
      obtain rfl : first = t := by simpa using hfirst
      -- the low byte of the first type is read as a type, which is not before the first one
      obtain ⟨d, hd, hvalue⟩ := (h.mem _).mp (mem_decode_first first rest)
      have hle : first.toNat ≤ d.toNat := by
        rcases List.mem_cons.mp hd with rfl | hd
        · exact Nat.le_refl _
        · exact Nat.le_of_lt (UInt16.lt_iff_toNat_lt.mp ((List.pairwise_cons.mp hsorted).1 d hd))
      have hmod := Nat.mod_lt first.toNat (by decide : 256 > 0)
      rw [UInt16.lt_iff_toNat_lt]
      exact Nat.lt_of_le_of_lt hle (hvalue ▸ hmod)
  · exact roundTrips_of_head hsorted

/-- Address, mail and certification authority: two windows. -/
theorem roundTrips_two_windows :
    [(1 : UInt16), 15, 257].Pairwise (· < ·) ∧ RoundTrips [1, 15, 257] := by
  refine ⟨by decide, (roundTrips_iff (by decide)).mpr ?_⟩
  intro t ht
  obtain rfl : 1 = t := Option.some.inj ht
  decide

/-- The bitmap of certification authority alone is that of an address. -/
theorem caa_read_as_address :
    [(257 : UInt16)].Pairwise (· < ·) ∧ buildTypeBitmap [257] = [(0, [0x40])] ∧
      decodeTypeBitmap (buildTypeBitmap [257]) = [1] ∧ ¬ RoundTrips [257] := by
  have hdecode : decodeTypeBitmap (buildTypeBitmap [257]) = [1] := by decide
  refine ⟨by decide, by decide, hdecode, fun h => ?_⟩
  obtain ⟨t, ht, hvalue⟩ := (h.mem 1).mp (by rw [hdecode]; exact List.mem_singleton_self _)
  rw [List.mem_singleton.mp ht] at hvalue
  exact absurd hvalue (by decide)

end Synvoid.Dns
