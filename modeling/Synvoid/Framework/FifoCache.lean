import Mathlib.Data.List.Nodup
import Mathlib.Data.List.Perm.Subperm

/-! # Caches that forget the oldest key

    At most `cap` keys have a value. A new key goes to the end, a known key
    keeps its place and takes the new value, and keys beyond the capacity are
    dropped from the front.

    As long as all keys that were ever inserted come from a list of at most
    `cap` keys, nothing is dropped (`get_insert_of_subset`).
-/

namespace Synvoid.Framework

universe u v

/-- The entries in the order in which their keys came. -/
structure FifoCache (κ : Type u) (β : Type v) (cap : Nat) where
  entries : List (κ × β)
  nodup_keys : (entries.map Prod.fst).Nodup
  length_le : entries.length ≤ cap

namespace FifoCache

variable {κ : Type u} {β : Type v} {cap : Nat}

def empty : FifoCache κ β cap where
  entries := []
  nodup_keys := List.nodup_nil
  length_le := Nat.zero_le cap

def keys (c : FifoCache κ β cap) : List κ := c.entries.map Prod.fst

variable [DecidableEq κ]

def get (c : FifoCache κ β cap) (k : κ) : Option β := c.entries.lookup k

def contains (c : FifoCache κ β cap) (k : κ) : Bool := (c.get k).isSome

/-- The entries with the value of one key replaced. -/
def replaced (entries : List (κ × β)) (k : κ) (b : β) : List (κ × β) :=
  entries.map fun e => if e.1 = k then (k, b) else e

theorem replaced_cons (k₀ : κ) (b₀ : β) (entries : List (κ × β)) (k : κ) (b : β) :
    replaced ((k₀, b₀) :: entries) k b =
      (if k₀ = k then (k, b) else (k₀, b₀)) :: replaced entries k b := rfl

theorem keys_replaced (entries : List (κ × β)) (k : κ) (b : β) :
    (replaced entries k b).map Prod.fst = entries.map Prod.fst := by
  unfold replaced
  rw [List.map_map]
  apply List.map_congr_left
  intro e _
  by_cases he : e.1 = k
  · simp [he]
  · simp [he]

theorem lookup_cons_eq (k k₀ : κ) (b₀ : β) (entries : List (κ × β)) :
    ((k₀, b₀) :: entries).lookup k = if k = k₀ then some b₀ else entries.lookup k := by
  by_cases hk : k = k₀
  · simp [hk]
  · simp [List.lookup_cons, hk, beq_eq_false_iff_ne.mpr hk]

theorem lookup_isSome_iff {entries : List (κ × β)} {k : κ} :
    (entries.lookup k).isSome = true ↔ k ∈ entries.map Prod.fst := by
  induction entries with
  | nil => simp
  | cons e entries ih =>
    obtain ⟨k', b⟩ := e
    by_cases hk : k = k'
    · subst hk
      simp
    · simp [lookup_cons_eq, hk, ih]

/-- With different keys, a lookup finds what is in the list. -/
theorem lookup_eq_some_iff {entries : List (κ × β)} (h : (entries.map Prod.fst).Nodup) {k : κ}
    {b : β} : entries.lookup k = some b ↔ (k, b) ∈ entries := by
  induction entries with
  | nil => simp
  | cons e entries ih =>
    obtain ⟨k₀, b₀⟩ := e
    obtain ⟨hnew, hrest⟩ := List.nodup_cons.mp h
    rw [lookup_cons_eq, List.mem_cons]
    by_cases hk : k = k₀
    · subst hk
      have hnot : (k, b) ∉ entries := fun hmem => hnew (List.mem_map.mpr ⟨(k, b), hmem, rfl⟩)
      simp [hnot, eq_comm]
    · rw [if_neg hk, ih hrest]
      simp [hk]

theorem lookup_replaced_ne (entries : List (κ × β)) {k : κ} (b : β) {k' : κ} (hk' : k' ≠ k) :
    (replaced entries k b).lookup k' = entries.lookup k' := by
  induction entries with
  | nil => rfl
  | cons e entries ih =>
    obtain ⟨k₀, b₀⟩ := e
    rw [replaced_cons, lookup_cons_eq k' k₀]
    by_cases hk₀ : k₀ = k
    · subst hk₀
      rw [if_pos rfl, lookup_cons_eq, if_neg hk', if_neg hk', ih]
    · rw [if_neg hk₀, lookup_cons_eq, ih]

theorem lookup_replaced_self {entries : List (κ × β)} {k : κ}
    (hk : (entries.lookup k).isSome = true) (b : β) :
    (replaced entries k b).lookup k = some b := by
  induction entries with
  | nil => simp at hk
  | cons e entries ih =>
    obtain ⟨k₀, b₀⟩ := e
    rw [replaced_cons]
    by_cases hk₀ : k₀ = k
    · rw [if_pos hk₀, lookup_cons_eq, if_pos rfl]
    · rw [lookup_cons_eq, if_neg (Ne.symm hk₀)] at hk
      rw [if_neg hk₀, lookup_cons_eq, if_neg (Ne.symm hk₀), ih hk]

theorem nodup_append_singleton {entries : List (κ × β)} {k : κ}
    (h : (entries.map Prod.fst).Nodup) (hk : ¬ (entries.lookup k).isSome = true) (b : β) :
    ((entries ++ [(k, b)]).map Prod.fst).Nodup := by
  rw [List.map_append]
  refine h.append (List.nodup_singleton k) ?_
  intro x hx hx'
  obtain rfl : x = k := by simpa using hx'
  exact hk (lookup_isSome_iff.mpr hx)

/-- A known key takes the new value in its place; a new one comes last, and
    the oldest keys beyond the capacity are dropped. -/
def insert (c : FifoCache κ β cap) (k : κ) (b : β) : FifoCache κ β cap :=
  if hk : (c.entries.lookup k).isSome = true then
    { entries := replaced c.entries k b
      nodup_keys := (keys_replaced c.entries k b).symm ▸ c.nodup_keys
      length_le := by
        unfold replaced
        rw [List.length_map]
        exact c.length_le }
  else
    { entries := (c.entries ++ [(k, b)]).drop (c.entries.length + 1 - cap)
      nodup_keys := by
        rw [List.map_drop]
        exact (nodup_append_singleton c.nodup_keys hk b).drop
      length_le := by
        rw [List.length_drop, List.length_append, List.length_singleton]
        omega }

theorem contains_iff {c : FifoCache κ β cap} {k : κ} : c.contains k = true ↔ k ∈ c.keys :=
  lookup_isSome_iff

theorem mem_entries_iff {c : FifoCache κ β cap} {k : κ} {b : β} :
    (k, b) ∈ c.entries ↔ c.get k = some b :=
  (lookup_eq_some_iff c.nodup_keys).symm

theorem keys_insert_subset (c : FifoCache κ β cap) (k : κ) (b : β) :
    (c.insert k b).keys ⊆ k :: c.keys := by
  intro x hx
  unfold keys insert at hx
  split at hx
  · rw [keys_replaced] at hx
    exact List.mem_cons_of_mem k hx
  · rw [List.map_drop, List.map_append] at hx
    rcases List.mem_append.mp (List.mem_of_mem_drop hx) with hbefore | hnew
    · exact List.mem_cons_of_mem k hbefore
    · exact List.mem_cons.mpr (Or.inl (by simpa using hnew))

theorem keys_insert_subset_of {c : FifoCache κ β cap} {K : List κ} (hc : c.keys ⊆ K) {k : κ}
    (hk : k ∈ K) (b : β) : (c.insert k b).keys ⊆ K := by
  intro x hx
  rcases List.mem_cons.mp (c.keys_insert_subset k b hx) with rfl | hbefore
  · exact hk
  · exact hc hbefore

/-- Whether or not a key is dropped, what a lookup finds was there or is new. -/
theorem get_of_get_insert {c : FifoCache κ β cap} {k : κ} {b : β} {k' : κ} {x : β}
    (h : (c.insert k b).get k' = some x) : k' = k ∧ x = b ∨ c.get k' = some x := by
  by_cases hk : (c.entries.lookup k).isSome = true
  · rw [get, insert, dif_pos hk] at h
    by_cases hk' : k' = k
    · rw [hk', lookup_replaced_self hk] at h
      exact Or.inl ⟨hk', (Option.some.inj h).symm⟩
    · rw [lookup_replaced_ne c.entries b hk'] at h
      exact Or.inr h
  · rw [get, insert, dif_neg hk] at h
    -- a value behind dropped keys is found from the front too, as keys are different
    have hnodup := (nodup_append_singleton c.nodup_keys hk b).drop (i := c.entries.length + 1 - cap)
    rw [← List.map_drop] at hnodup
    have hmem := List.mem_of_mem_drop ((lookup_eq_some_iff hnodup).mp h)
    rcases List.mem_append.mp hmem with hold | hnew
    · exact Or.inr ((lookup_eq_some_iff c.nodup_keys).mpr hold)
    · obtain ⟨rfl, rfl⟩ := Prod.mk.inj (List.mem_singleton.mp hnew)
      exact Or.inl ⟨rfl, rfl⟩

/-- While no key is dropped, a lookup finds the last value of each key. -/
theorem get_insert_of_room {c : FifoCache κ β cap} {k : κ}
    (hroom : c.contains k = true ∨ c.entries.length < cap) (b : β) (k' : κ) :
    (c.insert k b).get k' = if k' = k then some b else c.get k' := by
  by_cases hk : (c.entries.lookup k).isSome = true
  · rw [get, insert, dif_pos hk]
    by_cases hk' : k' = k
    · rw [if_pos hk', hk']
      exact lookup_replaced_self hk b
    · rw [if_neg hk']
      exact lookup_replaced_ne c.entries b hk'
  · have hlt : c.entries.length < cap := hroom.resolve_left hk
    have hzero : c.entries.length + 1 - cap = 0 := by omega
    rw [get, insert, dif_neg hk]
    show ((c.entries ++ [(k, b)]).drop (c.entries.length + 1 - cap)).lookup k' = _
    rw [hzero, List.drop_zero, List.lookup_append, lookup_cons_eq]
    by_cases hk' : k' = k
    · rw [if_pos hk', if_pos hk', hk', Option.not_isSome_iff_eq_none.mp hk]
      rfl
    · rw [if_neg hk', if_neg hk']
      exact Option.or_none

/-- No key is dropped while all keys are of a list that is not longer than the
    capacity. -/
theorem room_of_subset {c : FifoCache κ β cap} {K : List κ} (hc : c.keys ⊆ K)
    (hK : K.length ≤ cap) {k : κ} (hk : k ∈ K) :
    c.contains k = true ∨ c.entries.length < cap := by
  by_cases hmem : k ∈ c.keys
  · exact Or.inl (contains_iff.mpr hmem)
  · right
    have hnodup : (k :: c.keys).Nodup := List.nodup_cons.mpr ⟨hmem, c.nodup_keys⟩
    have hsub : k :: c.keys ⊆ K := List.cons_subset.mpr ⟨hk, hc⟩
    have hle := (hnodup.subperm hsub).length_le
    have hlen : c.keys.length = c.entries.length := List.length_map ..
    rw [List.length_cons, hlen] at hle
    omega

end FifoCache

end Synvoid.Framework
