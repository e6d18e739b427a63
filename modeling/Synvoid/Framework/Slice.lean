import Mathlib.Data.List.DropRight
import Mathlib.Data.List.Infix
import Mathlib.Tactic

/-! # Slices, windows and first occurrences in lists

    Vocabulary for programs that scan a sequence by position:

    * `slice l a b` is the part of `l` at positions `a ≤ i < b`;
    * `List.rtake` (Mathlib) is the trailing window of a given size;
    * `OccursAt`, `FirstAt` and `Absent` say where a needle occurs;
    * `EndsFirst` is what is read up to a delimiter.

    The lemmas say how these move between a list, its prefixes and its
    suffixes, which is what a scan that sees a stream piece by piece needs.
-/

namespace Synvoid.Framework

universe u

variable {α : Type u}

/-! ### Slices -/

/-- The elements of `l` at positions `a ≤ i < b`. -/
def slice (l : List α) (a b : Nat) : List α := (l.drop a).take (b - a)

/-- A smaller interval is a contiguous part of a larger one. -/
theorem slice_infix_slice (l : List α) {a a' b b' : Nat} (ha : a ≤ a') (hb : b' ≤ b) :
    slice l a' b' <:+: slice l a b := by
  -- shorten at the end first, then at the front
  have hdrop : l.drop a' = (l.drop a).drop (a' - a) := by
    rw [List.drop_drop]; congr 1; omega
  have hpre : (l.drop a').take (b' - a') <+: (l.drop a').take (b - a') :=
    List.take_prefix_take_left (by omega)
  have hsuf : (l.drop a').take (b - a') <:+ (l.drop a).take (b - a) := by
    rw [hdrop, show b - a' = (b - a) - (a' - a) by omega, ← List.drop_take]
    exact List.drop_suffix _ _
  exact hpre.isInfix.trans hsuf.isInfix

theorem slice_drop (l : List α) (k a b : Nat) : slice (l.drop k) a b = slice l (k + a) (k + b) := by
  unfold slice
  rw [List.drop_drop, show k + b - (k + a) = b - a by omega]

theorem slice_slice (l : List α) {s e a b : Nat} (h : s + b ≤ e) :
    slice (slice l s e) a b = slice l (s + a) (s + b) := by
  unfold slice
  rw [List.drop_take, List.take_take, List.drop_drop]
  congr 1
  omega

/-- Two slices next to each other. -/
theorem slice_append_slice (l : List α) {a b c : Nat} (hab : a ≤ b) (hbc : b ≤ c) :
    slice l a b ++ slice l b c = slice l a c := by
  unfold slice
  have hdrop : l.drop b = (l.drop a).drop (b - a) := by
    rw [List.drop_drop, Nat.add_sub_cancel' hab]
  rw [hdrop, show c - a = (b - a) + (c - b) by omega, List.take_add]

theorem slice_to_end (l : List α) (a : Nat) : slice l a l.length = l.drop a := by
  simp [slice, List.take_of_length_le]

theorem slice_append (l m : List α) (a b : Nat) (h : b ≤ l.length) :
    slice (l ++ m) a b = slice l a b := by
  unfold slice
  rcases Nat.le_total a l.length with ha | ha
  · rw [List.drop_append_of_le_length ha, List.take_append_of_le_length]
    simp; omega
  · rw [show b - a = 0 by omega, List.take_zero, List.take_zero]

theorem length_slice (l : List α) (a b : Nat) (h : b ≤ l.length) :
    (slice l a b).length = b - a := by
  simp [slice]; omega

/-- Every contiguous part is a slice. -/
theorem exists_slice_of_infix {l r : List α} (h : r <:+: l) :
    ∃ a, a + r.length ≤ l.length ∧ r = slice l a (a + r.length) := by
  obtain ⟨pre, post, rfl⟩ := h
  refine ⟨pre.length, by simp, ?_⟩
  simp [slice]

/-! ### Trailing windows -/

/-- A trailing window is the list without a prefix. -/
theorem rtake_eq_drop (l : List α) (n : Nat) : l.rtake n = l.drop (l.length - n) := rfl

/-- What a trailing window of `l` followed by `m` is in `l ++ m`. -/
theorem rtake_append_eq_drop (l m : List α) (n : Nat) :
    l.rtake n ++ m = (l ++ m).drop (l.length - n) := by
  rw [rtake_eq_drop, List.drop_append_of_le_length (Nat.sub_le _ _)]

/-- The trailing window after more input, from the window before it. -/
theorem rtake_rtake_append (l m : List α) (n : Nat) :
    (l.rtake n ++ m).rtake n = (l ++ m).rtake n := by
  rw [rtake_append_eq_drop, rtake_eq_drop, rtake_eq_drop, List.drop_drop]
  congr 1
  simp
  omega

/-! ### Occurrences -/

/-- `needle` occurs in `l` at position `i`. -/
def OccursAt (needle l : List α) (i : Nat) : Prop := needle <+: l.drop i

/-- `needle` does not occur in `l` at or after `start`. -/
def Absent (needle l : List α) (start : Nat) : Prop :=
  ∀ j, start ≤ j → ¬ OccursAt needle l j

/-- `i` is the first occurrence of `needle` in `l` at or after `start`. -/
structure FirstAt (needle l : List α) (start i : Nat) : Prop where
  le : start ≤ i
  occurs : OccursAt needle l i
  first : ∀ j, start ≤ j → j < i → ¬ OccursAt needle l j

instance [DecidableEq α] (needle l : List α) (i : Nat) : Decidable (OccursAt needle l i) :=
  inferInstanceAs (Decidable (needle <+: l.drop i))

instance [DecidableEq α] (needle l : List α) (start i : Nat) :
    Decidable (FirstAt needle l start i) :=
  decidable_of_iff (start ≤ i ∧ OccursAt needle l i ∧ ∀ j < i, start ≤ j → ¬ OccursAt needle l j)
    ⟨fun ⟨h₁, h₂, h₃⟩ => ⟨h₁, h₂, fun j hj hji => h₃ j hji hj⟩,
      fun h => ⟨h.le, h.occurs, fun j hji hj => h.first j hj hji⟩⟩

theorem OccursAt.length_le {needle l : List α} {i : Nat} (h : OccursAt needle l i)
    (hne : needle ≠ []) : i + needle.length ≤ l.length := by
  have hlen := List.IsPrefix.length_le h
  have hpos : 0 < needle.length := List.length_pos_iff.mpr hne
  simp at hlen
  omega

theorem occursAt_drop (needle l : List α) (k i : Nat) :
    OccursAt needle (l.drop k) i ↔ OccursAt needle l (k + i) := by
  simp [OccursAt, List.drop_drop]

theorem occursAt_append {needle l m : List α} {i : Nat} (h : i + needle.length ≤ l.length) :
    OccursAt needle (l ++ m) i ↔ OccursAt needle l i := by
  unfold OccursAt
  rw [List.drop_append_of_le_length (by omega)]
  constructor
  · intro hpre
    exact List.prefix_of_prefix_length_le hpre (List.prefix_append _ _) (by simp; omega)
  · intro hpre
    exact hpre.trans (List.prefix_append _ _)

/-- Where a needle starts inside another one's occurrence, one of the two
    continues the other. -/
theorem OccursAt.overlap {needle needle' l : List α} {i j : Nat} (hi : OccursAt needle l i)
    (hj : OccursAt needle' l j) (hij : i ≤ j) :
    needle.drop (j - i) <+: needle' ∨ needle' <+: needle.drop (j - i) := by
  have hdrop : needle.drop (j - i) <+: l.drop j := by
    have := List.IsPrefix.drop hi (j - i)
    rwa [List.drop_drop, Nat.add_sub_cancel' hij] at this
  exact List.prefix_or_prefix_of_prefix hdrop hj

theorem FirstAt.length_le {needle l : List α} {start i : Nat} (h : FirstAt needle l start i)
    (hne : needle ≠ []) : i + needle.length ≤ l.length :=
  h.occurs.length_le hne

/-- A first occurrence is unique. -/
theorem FirstAt.unique {needle l : List α} {start i j : Nat}
    (hi : FirstAt needle l start i) (hj : FirstAt needle l start j) : i = j := by
  rcases Nat.lt_trichotomy i j with hlt | heq | hgt
  · exact absurd hi.occurs (hj.first i hi.le hlt)
  · exact heq
  · exact absurd hj.occurs (hi.first j hj.le hgt)

theorem FirstAt.not_absent {needle l : List α} {start i : Nat}
    (h : FirstAt needle l start i) : ¬ Absent needle l start :=
  fun habs => habs i h.le h.occurs

/-- More input does not move a first occurrence. -/
theorem FirstAt.append {needle l : List α} {start i : Nat} (h : FirstAt needle l start i)
    (hne : needle ≠ []) (m : List α) : FirstAt needle (l ++ m) start i := by
  have hlen := h.length_le hne
  refine ⟨h.le, (occursAt_append hlen).mpr h.occurs, ?_⟩
  intro j hj hji hocc
  exact h.first j hj hji ((occursAt_append (by omega)).mp hocc)

/-- A first occurrence inside a prefix is one of the prefix. -/
theorem FirstAt.of_append {needle l m : List α} {start i : Nat}
    (h : FirstAt needle (l ++ m) start i) (hlen : i + needle.length ≤ l.length) :
    FirstAt needle l start i := by
  refine ⟨h.le, (occursAt_append hlen).mp h.occurs, ?_⟩
  intro j hj hji hocc
  exact h.first j hj hji ((occursAt_append (by omega)).mpr hocc)

theorem firstAt_drop (needle l : List α) (k start i : Nat) :
    FirstAt needle (l.drop k) start i ↔ FirstAt needle l (k + start) (k + i) := by
  constructor
  · intro h
    refine ⟨by have := h.le; omega, (occursAt_drop ..).mp h.occurs, ?_⟩
    intro j hj hji hocc
    have hjk : j = k + (j - k) := by omega
    rw [hjk] at hocc
    exact h.first (j - k) (by omega) (by omega) ((occursAt_drop ..).mpr hocc)
  · intro h
    refine ⟨by have := h.le; omega, (occursAt_drop ..).mpr h.occurs, ?_⟩
    intro j hj hji hocc
    exact h.first (k + j) (by omega) (by omega) ((occursAt_drop ..).mp hocc)

theorem absent_drop (needle l : List α) (k start : Nat) :
    Absent needle (l.drop k) start ↔ Absent needle l (k + start) := by
  constructor
  · intro h j hj hocc
    have hjk : j = k + (j - k) := by omega
    rw [hjk] at hocc
    exact h (j - k) (by omega) ((occursAt_drop ..).mpr hocc)
  · intro h j hj hocc
    exact h (k + j) (by omega) ((occursAt_drop ..).mp hocc)

/-- Where two search starts see the same first occurrence: nothing occurs
    between them. -/
theorem FirstAt.of_start {needle l : List α} {start start' i : Nat}
    (h : FirstAt needle l start i) (hle : start' ≤ i)
    (hgap : ∀ j, start' ≤ j → j < start → ¬ OccursAt needle l j) :
    FirstAt needle l start' i := by
  refine ⟨hle, h.occurs, ?_⟩
  intro j hj hji
  rcases Nat.lt_or_ge j start with hlt | hge
  · exact hgap j hj hlt
  · exact h.first j hge hji

theorem Absent.of_start {needle l : List α} {start start' : Nat} (h : Absent needle l start)
    (hgap : ∀ j, start' ≤ j → j < start → ¬ OccursAt needle l j) : Absent needle l start' := by
  intro j hj
  rcases Nat.lt_or_ge j start with hlt | hge
  · exact hgap j hj hlt
  · exact h j hge

/-- A needle is found or absent. -/
theorem firstAt_or_absent (needle l : List α) (start : Nat) :
    (∃ i, FirstAt needle l start i) ∨ Absent needle l start := by
  classical
  by_cases h : ∃ i, start ≤ i ∧ OccursAt needle l i
  · left
    refine ⟨Nat.find h, (Nat.find_spec h).1, (Nat.find_spec h).2, ?_⟩
    intro j hj hlt hocc
    exact Nat.find_min h hlt ⟨hj, hocc⟩
  · right
    intro j hj hocc
    exact h ⟨j, hj, hocc⟩

/-- Absence is decided by the positions of the list. -/
theorem absent_of_lt_length {needle l : List α} {start : Nat} (hne : needle ≠ [])
    (h : ∀ j < l.length, start ≤ j → ¬ OccursAt needle l j) : Absent needle l start := by
  intro j hj hocc
  have hlen := hocc.length_le hne
  have hpos : 0 < needle.length := List.length_pos_iff.mpr hne
  exact h j (by omega) hj hocc

/-- Past the end nothing occurs. -/
theorem absent_of_length_le {needle l : List α} {start : Nat} (hne : needle ≠ [])
    (h : l.length ≤ start) : Absent needle l start := by
  intro j hj hocc
  have := hocc.length_le hne
  have hpos : 0 < needle.length := List.length_pos_iff.mpr hne
  omega

/-! ### Delimiters -/

/-- `l` ends in `pat`, and nothing before its end does. -/
structure EndsFirst (pat l : List α) : Prop where
  suffix : pat <:+ l
  first : ∀ p, p <+: l → pat <:+ p → p = l

/-- What is read up to a delimiter does not depend on what follows. -/
theorem EndsFirst.unique {pat l m whole : List α} (hl : EndsFirst pat l) (hm : EndsFirst pat m)
    (hlw : l <+: whole) (hmw : m <+: whole) : l = m := by
  rcases List.prefix_or_prefix_of_prefix hlw hmw with h | h
  · exact hm.first l h hl.suffix
  · exact (hl.first m h hm.suffix).symm

/-- The last element of the delimiter does not stand before it. -/
theorem endsFirst_append {pat l : List α} {z : α} (hl : z ∉ l ++ pat) :
    EndsFirst (pat ++ [z]) (l ++ (pat ++ [z])) := by
  refine ⟨List.suffix_append _ _, ?_⟩
  intro p hp hends
  rw [← List.append_assoc, List.prefix_concat_iff] at hp
  rcases hp with rfl | hp
  · exact List.append_assoc _ _ _
  · exact absurd (hp.subset (hends.subset (by simp))) hl

/-- `windows(n).position(|w| w == pat)`, for a `pat` of length `n`. -/
def position [DecidableEq α] (pat : List α) : List α → Option Nat
  | [] => none
  | a :: l => if pat <+: a :: l then some 0 else (position pat l).map (· + 1)

/-- A prefix of `a :: l` that ends in `pat` is `pat` itself, or it ends in it
    behind `a`. -/
theorem suffix_of_prefix_cons {pat p l : List α} {a : α} (hne : pat ≠ []) (hp : p <+: a :: l)
    (hends : pat <:+ p) : pat = p ∨ ∃ q, p = a :: q ∧ q <+: l ∧ pat <:+ q := by
  cases p with
  | nil => exact absurd (List.suffix_nil.mp hends) hne
  | cons b q =>
    obtain ⟨rfl, hq⟩ := List.cons_prefix_cons.mp hp
    rcases List.suffix_cons_iff.mp hends with h | h
    · exact .inl h
    · exact .inr ⟨q, rfl, hq, h⟩

theorem position_none [DecidableEq α] {pat : List α} (hne : pat ≠ []) {l : List α}
    (h : position pat l = none) : ∀ p, p <+: l → ¬ pat <:+ p := by
  induction l with
  | nil =>
    intro p hp hends
    rw [List.prefix_nil.mp hp] at hends
    exact hne (List.suffix_nil.mp hends)
  | cons a l ih =>
    unfold position at h
    split at h
    · cases h
    · next hnot =>
      intro p hp hends
      rcases suffix_of_prefix_cons hne hp hends with rfl | ⟨q, -, hq, hends'⟩
      · exact hnot hp
      · exact ih (Option.map_eq_none_iff.mp h) q hq hends'

theorem position_some [DecidableEq α] {pat : List α} (hne : pat ≠ []) {l : List α} {i : Nat}
    (h : position pat l = some i) :
    EndsFirst pat (l.take (i + pat.length)) ∧ i + pat.length ≤ l.length := by
  induction l generalizing i with
  | nil => cases h
  | cons a l ih =>
    unfold position at h
    split at h
    · next hpre =>
      obtain rfl := Option.some.inj h
      rw [Nat.zero_add, ← List.prefix_iff_eq_take.mp hpre]
      exact ⟨⟨List.suffix_refl _, fun p hp hends => hp.eq_of_length_le hends.length_le⟩,
        hpre.length_le⟩
    · next hnot =>
      obtain ⟨j, hj, rfl⟩ := Option.map_eq_some_iff.mp h
      have htake : (a :: l).take (j + 1 + pat.length) = a :: l.take (j + pat.length) := by
        rw [Nat.add_right_comm, List.take_succ_cons]
      obtain ⟨hends_l, hlen⟩ := ih hj
      rw [htake]
      refine ⟨⟨hends_l.suffix.trans (List.suffix_cons _ _), ?_⟩, ?_⟩
      rotate_left
      · rw [List.length_cons]
        omega
      intro p hp hends
      rcases suffix_of_prefix_cons hne hp hends with rfl | ⟨q, rfl, hq, hends'⟩
      · have hcons : a :: l.take (j + pat.length) <+: a :: l :=
          List.cons_prefix_cons.mpr ⟨rfl, List.take_prefix _ _⟩
        exact absurd (hp.trans hcons) hnot
      · rw [hends_l.first q hq hends']

/-- The delimiter is found at the end of what it delimits. -/
theorem EndsFirst.position_eq [DecidableEq α] {pat l whole : List α} (hne : pat ≠ [])
    (h : EndsFirst pat l) (hl : l <+: whole) : ∃ i, position pat whole = some i ∧
      whole.take (i + pat.length) = l ∧ i + pat.length = l.length := by
  cases hpos : position pat whole with
  | none => exact absurd h.suffix (position_none hne hpos l hl)
  | some i =>
    obtain ⟨hends, hlen⟩ := position_some hne hpos
    have htake := hends.unique h (List.take_prefix _ _) hl
    exact ⟨i, rfl, htake, by rw [← htake, List.length_take_of_le hlen]⟩

/-- Before the end of what it delimits, it is not found. -/
theorem EndsFirst.position_eq_none [DecidableEq α] {pat l whole : List α} (hne : pat ≠ [])
    (h : EndsFirst pat l) (hl : whole <+: l) (hlt : whole.length < l.length) :
    position pat whole = none := by
  cases hpos : position pat whole with
  | none => rfl
  | some i =>
    obtain ⟨hends, -⟩ := position_some hne hpos
    have heq := h.first _ ((List.take_prefix _ _).trans hl) hends.suffix
    have := congrArg List.length heq
    rw [List.length_take] at this
    omega

end Synvoid.Framework
