import Synvoid.Framework.RustStr

/-! # Domain names: text and wire format

    The text of a domain name is cut at its dots into labels. On the wire a
    label is a length byte followed by its bytes, and a name is a sequence of
    labels of 1 to 63 bytes ended by a zero byte (`IsWireName`).

    `encodeLabels` writes labels of any length, with the length byte taken
    modulo 256 as a cast to a byte does, so its result need not be a name.
-/

namespace Synvoid.Framework

/-! ### Labels of a text -/

/-- `split('.').filter(|s| !s.is_empty())`. -/
def labels (s : Str) : List Str := (s.splitOn '.').filter (· ≠ [])

theorem labels_append_dot (a b : Str) : labels (a ++ '.' :: b) = labels a ++ labels b := by
  simp [labels, List.splitOn_append_cons_self]

theorem labels_of_no_dot {s : Str} (h : '.' ∉ s) : labels s = if s = [] then [] else [s] := by
  unfold labels
  rw [List.splitOn_eq_singleton h]
  by_cases hs : s = [] <;> simp [hs]

@[simp] theorem labels_nil : labels [] = [] := rfl

theorem ne_nil_of_mem_labels {s l : Str} (h : l ∈ labels s) : l ≠ [] := by
  simpa using (List.mem_filter.mp h).2

/-- A text ends in a part without dots. -/
theorem exists_last_part (s : Str) :
    ('.' ∉ s) ∨ ∃ a b, s = a ++ '.' :: b ∧ '.' ∉ b := by
  by_cases h : '.' ∈ s
  · right
    -- the last dot is the first one of the reversed text
    obtain ⟨a, b, hab, hb⟩ := List.eq_append_cons_of_mem (List.mem_reverse.mpr h)
    refine ⟨b.reverse, a.reverse, ?_, by simpa using hb⟩
    have := congrArg List.reverse hab
    simpa using this
  · exact Or.inl h

/-- Trailing dots do not change the labels. -/
theorem labels_trimEndMatches (s : Str) : labels (trimEndMatches '.' s) = labels s := by
  obtain ⟨n, hn⟩ := exists_trimEndMatches '.' s
  have hdots : ∀ (t : Str) (n : Nat), labels (t ++ List.replicate n '.') = labels t := by
    intro t n
    induction n generalizing t with
    | zero => simp
    | succ n ih =>
      rw [List.replicate_succ, labels_append_dot]
      have := ih []
      simp only [List.nil_append] at this
      simp [this]
  conv_rhs => rw [hn]
  exact (hdots _ n).symm

/-! ### Wire format -/

/-- A label behind its length, modulo 256. -/
def encodeLabel (l : Str) : Bytes := UInt8.ofNat (byteLen l) :: utf8 l

def encodeLabels (ls : List Str) : Bytes := ls.flatMap encodeLabel

/-- The wire format of labels given by their bytes. -/
def wireName (ls : List Bytes) : Bytes := ls.flatMap (fun l => UInt8.ofNat l.length :: l) ++ [0]

/-- Labels of 1 to 63 bytes, ended by exactly one zero byte. -/
def IsWireName (bytes : Bytes) : Prop :=
  ∃ ls : List Bytes, (∀ l ∈ ls, 1 ≤ l.length ∧ l.length ≤ 63) ∧ bytes = wireName ls

@[simp] theorem encodeLabels_nil : encodeLabels [] = [] := rfl

@[simp] theorem encodeLabels_cons (l : Str) (ls : List Str) :
    encodeLabels (l :: ls) = encodeLabel l ++ encodeLabels ls := rfl

@[simp] theorem encodeLabels_append (ls ms : List Str) :
    encodeLabels (ls ++ ms) = encodeLabels ls ++ encodeLabels ms := by
  simp [encodeLabels]

@[simp] theorem length_encodeLabel (l : Str) : (encodeLabel l).length = byteLen l + 1 := by
  simp [encodeLabel]

/-- The length byte of a label in a message. -/
theorem byteAt_encodeLabel (front : Bytes) (l : Str) (rest : Bytes) :
    byteAt (front ++ (encodeLabel l ++ rest)) front.length = UInt8.ofNat (byteLen l) := by
  simp [byteAt, encodeLabel]

/-- The bytes of a label in a message. -/
theorem slice_encodeLabel (front : Bytes) (l : Str) (rest : Bytes) :
    slice (front ++ (encodeLabel l ++ rest)) (front.length + 1) (front.length + 1 + byteLen l) =
      utf8 l := by
  have hfront : front.drop (front.length + 1) = [] := List.drop_eq_nil_of_le (Nat.le_succ _)
  simp [slice, encodeLabel, List.drop_append, hfront, ← length_utf8]

/-- The length of encoded labels. -/
theorem length_encodeLabels (ls : List Str) :
    (encodeLabels ls).length = (ls.map fun l => byteLen l + 1).sum := by
  induction ls with
  | nil => rfl
  | cons l ls ih => simp [ih]

/-- Length bytes take the place of the dots. -/
theorem length_encodeLabels_labels (s : Str) :
    (encodeLabels (labels s)).length ≤ byteLen s + 1 := by
  rw [length_encodeLabels]
  exact byteLen_filter_splitOnP (· == '.') _ s

theorem wireName_cons (l : Bytes) (ls : List Bytes) :
    wireName (l :: ls) = UInt8.ofNat l.length :: (l ++ wireName ls) := by
  simp [wireName]

/-- A name that starts with a block of `body.length` bytes behind a length
    byte that may have wrapped around once: the block is its first label. -/
theorem isWireName_label_iff (body : Bytes) {rest : Bytes} (hrest : rest ≠ [])
    (hle : body.length ≤ 256) :
    IsWireName (UInt8.ofNat body.length :: (body ++ rest)) ↔
      (1 ≤ body.length ∧ body.length ≤ 63) ∧ IsWireName rest := by
  constructor
  · intro ⟨ls, hls, heq⟩
    cases ls with
    | nil =>
      simp only [wireName, List.flatMap_nil, List.nil_append, List.cons.injEq] at heq
      exact absurd (List.append_eq_nil_iff.mp heq.2).2 hrest
    | cons l ls =>
      rw [wireName_cons, List.cons.injEq] at heq
      obtain ⟨hlen, heq⟩ := heq
      obtain ⟨hpos, h63⟩ := hls l (by simp)
      have hbyte := congrArg UInt8.toNat hlen
      rw [UInt8.toNat_ofNat', UInt8.toNat_ofNat', Nat.mod_eq_of_lt (by omega : l.length < 2 ^ 8)]
        at hbyte
      -- 256 is the only length that wraps around here, to 0, and `l` is not empty
      have hsame : body.length = l.length := by omega
      obtain ⟨rfl, rfl⟩ := List.append_inj heq hsame
      exact ⟨⟨hpos, h63⟩, ls, fun m hm => hls m (by simp [hm]), rfl⟩
  · rintro ⟨hbody, ls, hls, rfl⟩
    refine ⟨body :: ls, ?_, (wireName_cons body ls).symm⟩
    intro l hl
    rcases List.mem_cons.mp hl with rfl | hl
    · exact hbody
    · exact hls l hl

/-- Labels of up to 256 bytes encode to a name exactly if they are within the
    limit. (The length byte of a longer one can be that of a shorter label.) -/
theorem isWireName_encodeLabels_iff {ls : List Str} (hle : ∀ l ∈ ls, byteLen l ≤ 256) :
    IsWireName (encodeLabels ls ++ [0]) ↔ ∀ l ∈ ls, l ≠ [] ∧ byteLen l ≤ 63 := by
  induction ls with
  | nil => exact ⟨fun _ l hl => by simp at hl, fun _ => ⟨[], by simp, rfl⟩⟩
  | cons l ls ih =>
    have hfirst := isWireName_label_iff (utf8 l)
      (show encodeLabels ls ++ [0] ≠ [] by simp) (hle l (by simp))
    have hne : l ≠ [] ↔ 1 ≤ byteLen l := by
      rw [Nat.one_le_iff_ne_zero, ne_eq, ne_eq, byteLen_eq_zero]
    rw [List.forall_mem_cons, hne, ← ih fun m hm => hle m (by simp [hm])]
    rw [encodeLabels_cons, encodeLabel, List.cons_append, List.cons_append, List.append_assoc]
    exact hfirst

/-! ### Reading names -/

/-- Takes a name off the front of the bytes: labels up to a zero byte or up to
    a pointer, which has its two high bits set. -/
def readName : Nat → Bytes → Option (Bytes × Bytes)
  | 0, _ => none
  | _ + 1, [] => none
  | fuel + 1, len :: rest =>
      if len = 0 then some ([0], rest)
      else if 192 ≤ len.toNat then rest.head?.map fun lo => ([len, lo], rest.tail)
      else if len.toNat ≤ 63 ∧ len.toNat ≤ rest.length then
        (readName fuel (rest.drop len.toNat)).map fun r => (len :: rest.take len.toNat ++ r.1, r.2)
      else none

theorem readName_wireName {ls : List Bytes} (hls : ∀ l ∈ ls, 1 ≤ l.length ∧ l.length ≤ 63)
    (rest : Bytes) (fuel : Nat) (hfuel : ls.length < fuel) :
    readName fuel (wireName ls ++ rest) = some (wireName ls, rest) := by
  induction ls generalizing fuel with
  | nil =>
    cases fuel with
    | zero => omega
    | succ fuel => rfl
  | cons l ls ih =>
    cases fuel with
    | zero => omega
    | succ fuel =>
      obtain ⟨hpos, h63⟩ := hls l (by simp)
      have hbyte : (UInt8.ofNat l.length).toNat = l.length := by
        rw [UInt8.toNat_ofNat', Nat.mod_eq_of_lt (by omega)]
      have hne : UInt8.ofNat l.length ≠ 0 := by
        intro h0
        rw [h0] at hbyte
        simp at hbyte
        omega
      rw [wireName_cons, List.cons_append, List.append_assoc, readName, if_neg hne, hbyte,
        if_neg (by omega), if_pos ⟨h63, by simp⟩, List.drop_left, List.take_left]
      rw [ih (fun m hm => hls m (by simp [hm])) fuel (by simpa using hfuel)]
      simp

/-- What is read and what is left are the bytes. -/
theorem append_of_readName {fuel : Nat} {bytes name rest : Bytes}
    (h : readName fuel bytes = some (name, rest)) : bytes = name ++ rest := by
  induction fuel generalizing bytes name rest with
  | zero => cases h
  | succ fuel ih =>
    cases bytes with
    | nil => cases h
    | cons len bytes =>
      unfold readName at h
      split_ifs at h with hzero hpointer hlabel
      · obtain ⟨rfl, rfl⟩ := Prod.mk.inj (Option.some.inj h)
        rw [hzero]
        rfl
      · obtain ⟨lo, hlo, heq⟩ := Option.map_eq_some_iff.mp h
        obtain ⟨rfl, rfl⟩ := Prod.mk.inj heq
        rw [List.cons_append, List.cons_append, List.nil_append, List.cons_head?_tail hlo]
      · obtain ⟨⟨name', rest'⟩, hread, heq⟩ := Option.map_eq_some_iff.mp h
        obtain ⟨rfl, rfl⟩ := Prod.mk.inj heq
        rw [List.append_assoc, ← ih hread, List.cons_append, List.take_append_drop]

end Synvoid.Framework
