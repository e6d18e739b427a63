import Mathlib.Algebra.BigOperators.Group.List.Basic
import Mathlib.Algebra.Ring.Nat
import Mathlib.Data.List.AList
import Mathlib.Data.List.Sort

/-! # Hash tables with an unspecified iteration order

    A table is an association list without duplicate keys (Mathlib's `AList`
    at a constant family). The order of the entries stands for the order in
    which a program happens to iterate over the table, so a program's step is
    taken after some `Reordered` of it.

    Two loops over a table are provided: `traverse` rewrites or drops every
    entry by itself, `modifyFirst` rewrites the first entry that satisfies a
    test. Both have a lemma that says what a lookup finds afterwards. `total`
    sums a measure over the entries.

    `collect` builds a table from a list of pairs, and `sortedKeys` lists the
    keys in order, which does not depend on the order of the entries.
-/

namespace Synvoid.Framework

universe u v

/-- A finite map from `κ` to `β`. -/
abbrev Table (κ : Type u) (β : Type v) := AList (fun _ : κ => β)

variable {κ : Type u} {β : Type v}

/-- `t'` has the entries of `t`, possibly in another order. -/
def Table.Reordered (t t' : Table κ β) : Prop := t.entries.Perm t'.entries

theorem Table.Reordered.refl (t : Table κ β) : t.Reordered t := List.Perm.refl _

/-- One entry of a traversal. -/
def traverseEntry (f : κ → β → Option β) (e : Sigma fun _ : κ => β) :
    Option (Sigma fun _ : κ => β) :=
  (f e.1 e.2).map (Sigma.mk e.1)

theorem traverseEntry_eq_some {f : κ → β → Option β} {e e' : Sigma fun _ : κ => β} :
    traverseEntry f e = some e' ↔ e.1 = e'.1 ∧ f e.1 e.2 = some e'.2 := by
  obtain ⟨k, b⟩ := e
  obtain ⟨k', b'⟩ := e'
  unfold traverseEntry
  cases f k b with
  | none => simp
  | some c =>
    simp only [Option.map_some, Option.some.injEq]
    constructor
    · intro h
      injection h with h₁ h₂
      exact ⟨h₁, h₂⟩
    · rintro ⟨rfl, rfl⟩
      rfl

theorem nodupKeys_filterMap_traverseEntry (f : κ → β → Option β)
    {l : List (Sigma fun _ : κ => β)} (h : l.NodupKeys) :
    (l.filterMap (traverseEntry f)).NodupKeys := by
  rw [List.nodupKeys_iff_pairwise] at h ⊢
  refine List.Pairwise.filterMap _ ?_ h
  intro e e' hne b hb c hc
  rw [← (traverseEntry_eq_some.mp hb).1, ← (traverseEntry_eq_some.mp hc).1]
  exact hne

/-- Rewrites every entry by `f`, and drops it where `f` is undefined. -/
def Table.traverse (t : Table κ β) (f : κ → β → Option β) : Table κ β where
  entries := t.entries.filterMap (traverseEntry f)
  nodupKeys := nodupKeys_filterMap_traverseEntry f t.nodupKeys

section lookup
variable [DecidableEq κ]

theorem Table.Reordered.lookup {t t' : Table κ β} (h : t.Reordered t') (k : κ) :
    t'.lookup k = t.lookup k :=
  (AList.perm_lookup h).symm

theorem Table.lookup_traverse (t : Table κ β) (f : κ → β → Option β) (k : κ) :
    (t.traverse f).lookup k = (t.lookup k).bind (f k) := by
  -- keys are unique, so a lookup is membership of an entry
  refine Option.ext fun b => ?_
  have hiff : ∀ (s : Table κ β) (c : β), s.lookup k = some c ↔ ⟨k, c⟩ ∈ s.entries :=
    fun s c => AList.mem_lookup_iff
  rw [hiff, Option.bind_eq_some_iff]
  simp only [Table.traverse, List.mem_filterMap]
  constructor
  · intro ⟨⟨k', c⟩, hmem, hsome⟩
    obtain ⟨rfl, hf⟩ := traverseEntry_eq_some.mp hsome
    exact ⟨c, (hiff t c).mpr hmem, hf⟩
  · intro ⟨c, hc, hf⟩
    exact ⟨⟨k, c⟩, (hiff t c).mp hc, traverseEntry_eq_some.mpr ⟨rfl, hf⟩⟩

/-- Rewrites the first entry whose value satisfies `p`; `none` if there is
    none. -/
def Table.modifyFirst (t : Table κ β) (p : β → Bool) (f : β → β) : Option (Table κ β) :=
  (t.entries.find? fun e => p e.2).map fun e => t.insert e.1 (f e.2)

theorem Table.modifyFirst_eq_some {t t' : Table κ β} {p : β → Bool} {f : β → β}
    (h : t.modifyFirst p f = some t') :
    ∃ k b, t.lookup k = some b ∧ p b = true ∧ t' = t.insert k (f b) := by
  obtain ⟨⟨k, b⟩, hfind, rfl⟩ := Option.map_eq_some_iff.mp h
  exact ⟨k, b, AList.mem_lookup_iff.mpr (List.mem_of_find?_eq_some hfind),
    by simpa using List.find?_some hfind, rfl⟩

/-- What a lookup finds after an insertion. -/
theorem Table.lookup_insert_eq (t : Table κ β) (k k' : κ) (b : β) :
    (t.insert k b).lookup k' = if k' = k then some b else t.lookup k' := by
  split
  · next h =>
    subst h
    exact AList.lookup_insert t
  · next h => exact AList.lookup_insert_ne h

theorem Table.lookup_erase_eq (t : Table κ β) (k k' : κ) :
    (t.erase k).lookup k' = if k' = k then none else t.lookup k' := by
  split
  · next h =>
    subst h
    exact AList.lookup_erase k' t
  · next h => exact AList.lookup_erase_ne h

theorem Table.length_insert (t : Table κ β) (k : κ) (b : β) :
    (t.insert k b).entries.length =
      if (t.lookup k).isSome then t.entries.length else t.entries.length + 1 := by
  have hkeys : ∀ t : Table κ β, t.entries.length = t.keys.length := fun t =>
    (List.length_map _).symm
  rw [hkeys, hkeys, AList.keys_insert, List.length_cons]
  split
  · next hmem => exact List.length_erase_add_one (AList.lookup_isSome.mp hmem)
  · next hmem =>
    rw [List.erase_of_not_mem]
    exact fun hkey => hmem (AList.lookup_isSome.mpr hkey)

theorem Table.length_erase {t : Table κ β} {k : κ} (h : (t.lookup k).isSome = true) :
    (t.erase k).entries.length + 1 = t.entries.length := by
  have hkeys : ∀ t : Table κ β, t.entries.length = t.keys.length := fun t =>
    (List.length_map _).symm
  rw [hkeys, hkeys, AList.keys_erase]
  exact List.length_erase_add_one (AList.lookup_isSome.mp h)

/-- The sum of a measure over the entries. -/
def Table.total (f : β → Nat) (t : Table κ β) : Nat := (t.entries.map fun e => f e.2).sum

theorem Table.total_insert (f : β → Nat) (t : Table κ β) (k : κ) (b : β) :
    Table.total f (t.insert k b) = f b + Table.total f (t.erase k) := by
  unfold Table.total
  rw [AList.entries_insert, List.map_cons, List.sum_cons]
  rfl

/-- One entry and the rest. -/
theorem Table.total_erase (f : β → Nat) (t : Table κ β) (k : κ) :
    t.total f = Table.total f (t.erase k) + (t.lookup k).elim 0 f := by
  have herase : (t.erase k).entries = t.entries.kerase k := rfl
  cases hlookup : t.lookup k with
  | none =>
    have hkey : k ∉ t.entries.keys := AList.lookup_eq_none.mp hlookup
    unfold Table.total
    rw [herase, List.kerase_of_notMem_keys hkey]
    rfl
  | some b =>
    have hkey : k ∈ t.entries.keys := AList.lookup_isSome.mp (by rw [hlookup]; rfl)
    obtain ⟨c, before, after, -, hentries, hrest⟩ := List.exists_of_kerase hkey
    have hmem : (⟨k, c⟩ : Sigma fun _ : κ => β) ∈ t.entries := by
      rw [hentries]
      simp
    have hc : t.lookup k = some c := AList.mem_lookup_iff.mpr hmem
    obtain rfl : c = b := Option.some.inj (hc.symm.trans hlookup)
    unfold Table.total
    rw [herase, hrest, hentries]
    simp only [List.map_append, List.map_cons, List.sum_append, List.sum_cons, Option.elim_some]
    omega

/-- `retain`. -/
def Table.retain (t : Table κ β) (p : κ → β → Bool) : Table κ β :=
  t.traverse fun k b => if p k b then some b else none

theorem Table.lookup_retain (t : Table κ β) (p : κ → β → Bool) (k : κ) :
    (t.retain p).lookup k = (t.lookup k).filter (p k) := by
  unfold Table.retain
  rw [Table.lookup_traverse]
  cases t.lookup k with
  | none => rfl
  | some b => rfl

omit [DecidableEq κ] in
/-- The entries that are kept and those that are dropped. -/
theorem Table.total_retain (f : β → Nat) (t : Table κ β) (p : κ → β → Bool) :
    (t.retain p).total f +
      ((t.entries.filter fun e => !p e.1 e.2).map fun e => f e.2).sum = t.total f := by
  unfold Table.total Table.retain Table.traverse
  simp only
  induction t.entries with
  | nil => rfl
  | cons e entries ih =>
    by_cases he : p e.1 e.2 = true
    · have hkept : traverseEntry (fun k b => if p k b then some b else none) e = some e := by
        simp [traverseEntry, he]
      rw [List.filterMap_cons_some hkept, List.filter_cons_of_neg (by simp [he])]
      simp only [List.map_cons, List.sum_cons] at ih ⊢
      omega
    · have hdropped : traverseEntry (fun k b => if p k b then some b else none) e = none := by
        simp [traverseEntry, he]
      rw [List.filterMap_cons_none hdropped, List.filter_cons_of_pos (by simp [he])]
      simp only [List.map_cons, List.sum_cons] at ih ⊢
      omega

/-- The table of a list of pairs; a later pair replaces an earlier one of the
    same key. -/
def Table.collect (l : List (κ × β)) : Table κ β := l.foldl (fun t e => t.insert e.1 e.2) ∅

theorem Table.lookup_foldl_insert {l : List (κ × β)} (hl : (l.map Prod.fst).Nodup)
    (t : Table κ β) (k : κ) (b : β) :
    (l.foldl (fun t e => t.insert e.1 e.2) t).lookup k = some b ↔
      (k, b) ∈ l ∨ (k ∉ l.map Prod.fst ∧ t.lookup k = some b) := by
  induction l generalizing t with
  | nil => simp
  | cons e l ih =>
    obtain ⟨k', b'⟩ := e
    obtain ⟨hk', hl'⟩ := List.nodup_cons.mp (by simpa using hl : (k' :: l.map Prod.fst).Nodup)
    rw [List.foldl_cons, ih hl', Table.lookup_insert_eq]
    by_cases hk : k = k'
    · subst hk
      have hnot : ∀ b, (k, b) ∉ l := fun b hmem => hk' (List.mem_map_of_mem hmem)
      simp [hnot, hk', eq_comm]
    · simp [hk]

/-- Pairs with different keys are all found. -/
theorem Table.lookup_collect {l : List (κ × β)} (hl : (l.map Prod.fst).Nodup) (k : κ) (b : β) :
    (Table.collect l).lookup k = some b ↔ (k, b) ∈ l := by
  unfold Table.collect
  rw [Table.lookup_foldl_insert hl]
  simp

/-- What is found is one of the pairs, also if there are several with its key. -/
theorem Table.mem_of_lookup_collect {l : List (κ × β)} {k : κ} {b : β}
    (h : (Table.collect l).lookup k = some b) : (k, b) ∈ l := by
  have hfold : ∀ t : Table κ β, (l.foldl (fun t e => t.insert e.1 e.2) t).lookup k = some b →
      (k, b) ∈ l ∨ t.lookup k = some b := by
    clear h
    induction l with
    | nil => exact fun t h => .inr h
    | cons e l ih =>
      intro t h
      rcases ih _ h with hmem | hlookup
      · exact .inl (List.mem_cons_of_mem _ hmem)
      · rw [Table.lookup_insert_eq] at hlookup
        split at hlookup
        · next hk =>
          refine .inl (List.mem_cons.mpr (.inl ?_))
          rw [hk, ← Option.some.inj hlookup]
        · exact .inr hlookup
  rcases hfold ∅ h with hmem | hlookup
  · exact hmem
  · rw [AList.lookup_empty] at hlookup
    cases hlookup

/-- The key of every pair is found. -/
theorem Table.isSome_lookup_collect {l : List (κ × β)} {k : κ} {b : β} (h : (k, b) ∈ l) :
    ((Table.collect l).lookup k).isSome = true := by
  have hfold : ∀ t : Table κ β, ((k, b) ∈ l ∨ (t.lookup k).isSome = true) →
      ((l.foldl (fun t e => t.insert e.1 e.2) t).lookup k).isSome = true := by
    clear h
    induction l with
    | nil => exact fun t h => h.resolve_left List.not_mem_nil
    | cons e l ih =>
      intro t h
      refine ih _ ?_
      rw [Table.lookup_insert_eq]
      by_cases hk : k = e.1
      · exact .inr (by rw [if_pos hk]; rfl)
      · rw [if_neg hk]
        refine h.imp_left fun hmem => (List.mem_cons.mp hmem).resolve_left fun heq => hk ?_
        rw [← heq]
  exact hfold ∅ (.inl h)

end lookup

section order
variable [LinearOrder κ]

/-- The keys in their order. -/
def Table.sortedKeys (t : Table κ β) : List κ := t.keys.insertionSort (· ≤ ·)

theorem Table.mem_sortedKeys {t : Table κ β} {k : κ} :
    k ∈ t.sortedKeys ↔ (t.lookup k).isSome = true := by
  unfold Table.sortedKeys
  rw [List.mem_insertionSort, AList.lookup_isSome]
  rfl

theorem Table.nodup_sortedKeys (t : Table κ β) : t.sortedKeys.Nodup :=
  (List.perm_insertionSort _ _).nodup_iff.mpr t.keys_nodup

/-- The sorted keys are determined by which keys have a value. -/
theorem Table.sortedKeys_congr {t t' : Table κ β}
    (h : ∀ k, (t.lookup k).isSome = (t'.lookup k).isSome) : t.sortedKeys = t'.sortedKeys := by
  have hperm : t.sortedKeys.Perm t'.sortedKeys := by
    rw [List.perm_ext_iff_of_nodup t.nodup_sortedKeys t'.nodup_sortedKeys]
    intro k
    rw [Table.mem_sortedKeys, Table.mem_sortedKeys, h]
  exact hperm.eq_of_sortedLE List.sortedLE_insertionSort List.sortedLE_insertionSort

end order

end Synvoid.Framework
