import Synvoid.Framework.Table
import Mathlib.Data.List.Sort

/-! # Tables whose values know their keys

    A `KeyedTable keyOf` is a table in which every value `b` stands under its
    own key `keyOf b`, so that a list of its values still tells where each of
    them came from.

    The updates of replicated stores are offers: a new value replaces the one
    under its key if `accept` says so. Offers under different keys do not
    interfere (`get_foldl_offer`).
-/

namespace Synvoid.Framework

universe u v

variable {κ : Type u} {β : Type v} [DecidableEq κ]

/-- A finite map of values under their own keys. -/
structure KeyedTable (keyOf : β → κ) where
  table : Table κ β
  keyed : ∀ k b, table.lookup k = some b → keyOf b = k

namespace KeyedTable

variable {keyOf : β → κ}

def empty : KeyedTable keyOf where
  table := ∅
  keyed := by
    intro k b h
    simp at h

def get (t : KeyedTable keyOf) (k : κ) : Option β := t.table.lookup k

def insert (t : KeyedTable keyOf) (b : β) : KeyedTable keyOf where
  table := t.table.insert (keyOf b) b
  keyed := by
    intro k c h
    rw [Table.lookup_insert_eq] at h
    split at h
    · next hk =>
      obtain rfl := Option.some.inj h
      exact hk.symm
    · exact t.keyed k c h

def erase (t : KeyedTable keyOf) (k : κ) : KeyedTable keyOf where
  table := t.table.erase k
  keyed := by
    intro k' c h
    by_cases hk : k' = k
    · subst hk
      rw [AList.lookup_erase] at h
      cases h
    · rw [AList.lookup_erase_ne hk] at h
      exact t.keyed k' c h

/-- The number of entries. -/
def size (t : KeyedTable keyOf) : Nat := t.table.entries.length

/-- The values in the order of their keys. -/
def values (t : KeyedTable keyOf) (r : κ → κ → Prop) [DecidableRel r] : List β :=
  (t.table.entries.map Sigma.snd).insertionSort fun b c => r (keyOf b) (keyOf c)

/-! ### Lookups -/

@[simp] theorem get_empty (k : κ) : (empty : KeyedTable keyOf).get k = none :=
  AList.lookup_empty k

theorem keyOf_of_get {t : KeyedTable keyOf} {k : κ} {b : β} (h : t.get k = some b) :
    keyOf b = k :=
  t.keyed k b h

theorem get_insert (t : KeyedTable keyOf) (b : β) (k : κ) :
    (t.insert b).get k = if k = keyOf b then some b else t.get k :=
  Table.lookup_insert_eq t.table (keyOf b) k b

@[simp] theorem get_insert_self (t : KeyedTable keyOf) (b : β) :
    (t.insert b).get (keyOf b) = some b := by
  rw [get_insert, if_pos rfl]

theorem get_erase (t : KeyedTable keyOf) (k k' : κ) :
    (t.erase k).get k' = if k' = k then none else t.get k' := by
  split
  · next h =>
    subst h
    exact AList.lookup_erase k' t.table
  · next h => exact AList.lookup_erase_ne h

theorem get_of_get_erase {t : KeyedTable keyOf} {k k' : κ} {b : β}
    (h : (t.erase k).get k' = some b) : t.get k' = some b := by
  rw [get_erase] at h
  split at h
  · cases h
  · exact h

theorem get_of_get_foldl_erase {t : KeyedTable keyOf} {ks : List κ} {k : κ} {b : β}
    (h : (ks.foldl erase t).get k = some b) : t.get k = some b := by
  induction ks generalizing t with
  | nil => exact h
  | cons k' ks ih => exact get_of_get_erase (ih h)

theorem mem_entries_iff {t : KeyedTable keyOf} {e : Sigma fun _ : κ => β} :
    e ∈ t.table.entries ↔ t.get e.1 = some e.2 :=
  AList.mem_lookup_iff.symm

theorem mem_values {t : KeyedTable keyOf} {r : κ → κ → Prop} [DecidableRel r] {b : β} :
    b ∈ t.values r ↔ t.get (keyOf b) = some b := by
  unfold values
  rw [List.mem_insertionSort, List.mem_map]
  constructor
  · intro ⟨e, he, heq⟩
    subst heq
    have hget := mem_entries_iff.mp he
    rwa [keyOf_of_get hget]
  · intro h
    exact ⟨⟨keyOf b, b⟩, mem_entries_iff.mpr h, rfl⟩

/-- The values have different keys. -/
theorem pairwise_values (t : KeyedTable keyOf) (r : κ → κ → Prop) [DecidableRel r] :
    (t.values r).Pairwise fun b c => keyOf b ≠ keyOf c := by
  have hkeys : (t.table.entries.map Sigma.snd).Pairwise fun b c => keyOf b ≠ keyOf c := by
    rw [List.pairwise_map]
    -- the keys of the table are different, and each value has its own
    have hnodup := List.nodupKeys_iff_pairwise.mp t.table.nodupKeys
    refine List.Pairwise.imp_of_mem ?_ hnodup
    intro e e' he he' hne
    rwa [keyOf_of_get (mem_entries_iff.mp he), keyOf_of_get (mem_entries_iff.mp he')]
  exact (List.perm_insertionSort _ _).symm.pairwise hkeys fun hne => Ne.symm hne

/-! ### Sizes -/

theorem size_eq (t : KeyedTable keyOf) : t.size = t.table.keys.length := by
  simp [size, AList.keys, List.keys]

theorem mem_keys_of_get {t : KeyedTable keyOf} {k : κ} {b : β} (h : t.get k = some b) :
    k ∈ t.table.keys :=
  AList.lookup_isSome.mp (Option.isSome_of_eq_some h)

theorem size_erase_of_get {t : KeyedTable keyOf} {k : κ} {b : β} (h : t.get k = some b) :
    (t.erase k).size + 1 = t.size := by
  rw [size_eq, size_eq]
  show (t.table.erase k).keys.length + 1 = _
  rw [AList.keys_erase]
  exact List.length_erase_add_one (mem_keys_of_get h)

theorem size_erase_le (t : KeyedTable keyOf) (k : κ) : (t.erase k).size ≤ t.size := by
  rw [size_eq, size_eq]
  show (t.table.erase k).keys.length ≤ _
  rw [AList.keys_erase]
  exact List.length_erase_le

theorem size_insert_le (t : KeyedTable keyOf) (b : β) : (t.insert b).size ≤ t.size + 1 := by
  rw [size_eq, size_eq]
  show (t.table.insert (keyOf b) b).keys.length ≤ _
  rw [AList.keys_insert, List.length_cons]
  exact Nat.succ_le_succ List.length_erase_le

theorem size_foldl_erase_le (t : KeyedTable keyOf) (ks : List κ) :
    (ks.foldl erase t).size ≤ t.size := by
  induction ks generalizing t with
  | nil => exact Nat.le_refl _
  | cons k ks ih => exact (ih (t.erase k)).trans (size_erase_le t k)

@[simp] theorem length_values (t : KeyedTable keyOf) (r : κ → κ → Prop) [DecidableRel r] :
    (t.values r).length = t.size := by
  simp [values, size]

/-! ### Offers -/

/-- A value replaces the one under its key, if it is accepted there. -/
def offer (accept : Option β → β → Bool) (t : KeyedTable keyOf) (b : β) : KeyedTable keyOf :=
  if accept (t.get (keyOf b)) b then t.insert b else t

theorem offer_of_accept {accept : Option β → β → Bool} {t : KeyedTable keyOf} {b : β}
    (h : accept (t.get (keyOf b)) b = true) : t.offer accept b = t.insert b :=
  if_pos h

/-- The same for a single place. -/
def offerAt (accept : Option β → β → Bool) (current : Option β) (b : β) : Option β :=
  if accept current b then some b else current

theorem get_offer (accept : Option β → β → Bool) (t : KeyedTable keyOf) (b : β) (k : κ) :
    (t.offer accept b).get k =
      if k = keyOf b then offerAt accept (t.get k) b else t.get k := by
  by_cases hk : k = keyOf b
  · subst hk
    unfold offer offerAt
    split <;> simp
  · rw [if_neg hk]
    unfold offer
    split
    · rw [get_insert, if_neg hk]
    · rfl

/-- **Offers under different keys do not interfere**: what stands under a key
    after a list of offers depends on the offers for that key only. -/
theorem get_foldl_offer (accept : Option β → β → Bool) (t : KeyedTable keyOf) (l : List β)
    (k : κ) :
    (l.foldl (offer accept) t).get k =
      (l.filter fun b => keyOf b = k).foldl (offerAt accept) (t.get k) := by
  -- the first offer changes the table, at its own key only
  induction l generalizing t with
  | nil => rfl
  | cons b l ih =>
    rw [List.foldl_cons, ih, get_offer]
    by_cases hk : k = keyOf b
    · subst hk
      simp
    · rw [if_neg hk, List.filter_cons_of_neg (by simpa using Ne.symm hk)]

/-- The elements of a list with different keys that stand for a given key. -/
theorem filter_keyOf_of_mem {l : List β} (hl : l.Pairwise fun b c => keyOf b ≠ keyOf c) {b : β}
    (hb : b ∈ l) : (l.filter fun c => keyOf c = keyOf b) = [b] := by
  induction l with
  | nil => cases hb
  | cons c l ih =>
    obtain ⟨hc, hl'⟩ := List.pairwise_cons.mp hl
    rcases List.mem_cons.mp hb with rfl | hb'
    · rw [List.filter_cons_of_pos (by simp), List.filter_eq_nil_iff.mpr]
      intro c hmem
      simpa using Ne.symm (hc c hmem)
    · rw [List.filter_cons_of_neg (by simpa using hc b hb')]
      exact ih hl' hb'

/-- Of offers with different keys, each meets what was there before. -/
theorem get_foldl_offer_of_mem (accept : Option β → β → Bool) (t : KeyedTable keyOf) {l : List β}
    (hl : l.Pairwise fun b c => keyOf b ≠ keyOf c) {b : β} (hb : b ∈ l) :
    (l.foldl (offer accept) t).get (keyOf b) = offerAt accept (t.get (keyOf b)) b := by
  rw [get_foldl_offer, filter_keyOf_of_mem hl hb]
  rfl

/-- A key without an offer keeps its value. -/
theorem get_foldl_offer_of_forall_ne (accept : Option β → β → Bool) (t : KeyedTable keyOf)
    {l : List β} {k : κ} (hl : ∀ b ∈ l, keyOf b ≠ k) :
    (l.foldl (offer accept) t).get k = t.get k := by
  rw [get_foldl_offer, List.filter_eq_nil_iff.mpr (by simpa using hl)]
  rfl

end KeyedTable

end Synvoid.Framework
