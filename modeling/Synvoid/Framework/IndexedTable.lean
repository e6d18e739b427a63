import Synvoid.Framework.Table

/-! # Tables with a secondary index

    Every key of the table belongs to a group. The index lists the keys of a
    group, and all keys of a group that have a value are in its list; it may
    list keys whose value is gone. `invalidateGroups` uses the index to drop
    all values of some groups without a scan of the table, and
    `get_invalidateGroups` says that it misses none.
-/

namespace Synvoid.Framework

universe u v w

variable {κ : Type u} {γ : Type v} {β : Type w} [DecidableEq γ]

namespace IndexedTable

/-- The keys listed for a group. -/
def listed (index : Table γ (List κ)) (g : γ) : List κ := (index.lookup g).getD []

theorem mem_listed_insert {index : Table γ (List κ)} {g g' : γ} {ks : List κ} {k : κ} :
    k ∈ listed (index.insert g ks) g' ↔ if g' = g then k ∈ ks else k ∈ listed index g' := by
  unfold listed
  rw [Table.lookup_insert_eq]
  split <;> simp

theorem exists_lookup_iff {index : Table γ (List κ)} {g : γ} {k : κ} :
    (∃ ks, index.lookup g = some ks ∧ k ∈ ks) ↔ k ∈ listed index g := by
  unfold listed
  cases index.lookup g <;> simp

theorem forall_lookup_iff {index : Table γ (List κ)} {g : γ} {P : κ → Prop} :
    (∀ ks, index.lookup g = some ks → ∀ k ∈ ks, P k) ↔ ∀ k ∈ listed index g, P k := by
  unfold listed
  cases index.lookup g <;> simp

theorem listed_traverse (index : Table γ (List κ)) (f : γ → List κ → Option (List κ)) (g : γ) :
    listed (index.traverse f) g = ((index.lookup g).bind (f g)).getD [] := by
  unfold listed
  rw [Table.lookup_traverse]

end IndexedTable

variable [DecidableEq κ]

/-- A table of values, and for each group of keys a list that covers it. -/
structure IndexedTable (β : Type w) (groupOf : κ → γ) where
  table : Table κ β
  index : Table γ (List κ)
  covers : ∀ k, (table.lookup k).isSome = true → ∃ ks, index.lookup (groupOf k) = some ks ∧ k ∈ ks
  grouped : ∀ g ks, index.lookup g = some ks → ∀ k ∈ ks, groupOf k = g

namespace IndexedTable

variable {groupOf : κ → γ}

def empty : IndexedTable β groupOf where
  table := ∅
  index := ∅
  covers := by
    intro k h
    simp at h
  grouped := by
    intro g ks h
    simp at h

def get (t : IndexedTable β groupOf) (k : κ) : Option β := t.table.lookup k

/-- The two conditions on a table and its index, in terms of `listed`. -/
def ofListed (table : Table κ β) (index : Table γ (List κ))
    (covers : ∀ k, (table.lookup k).isSome = true → k ∈ listed index (groupOf k))
    (grouped : ∀ g, ∀ k ∈ listed index g, groupOf k = g) : IndexedTable β groupOf where
  table := table
  index := index
  covers := fun k hk => exists_lookup_iff.mpr (covers k hk)
  grouped := fun g => forall_lookup_iff.mpr (grouped g)

variable (t : IndexedTable β groupOf)

theorem mem_listed {k : κ} (h : (t.get k).isSome = true) : k ∈ listed t.index (groupOf k) :=
  exists_lookup_iff.mp (t.covers k h)

theorem groupOf_of_mem_listed {g : γ} {k : κ} (h : k ∈ listed t.index g) : groupOf k = g :=
  forall_lookup_iff.mp (t.grouped g) k h

/-! ### Operations -/

def insert (k : κ) (b : β) : IndexedTable β groupOf :=
  ofListed (t.table.insert k b)
    (t.index.insert (groupOf k) ((listed t.index (groupOf k)).insert k))
    (by
      intro k' hk'
      rw [mem_listed_insert]
      rw [Table.lookup_insert_eq] at hk'
      split at hk'
      · next h => simp [h]
      · have hmem := t.mem_listed hk'
        split
        · next hg => exact List.mem_insert_of_mem (hg ▸ hmem)
        · exact hmem)
    (by
      intro g k' hk'
      rw [mem_listed_insert] at hk'
      split at hk'
      · next hg =>
        rcases List.mem_insert_iff.mp hk' with rfl | hmem
        · exact hg.symm
        · exact (t.groupOf_of_mem_listed hmem).trans hg.symm
      · exact t.groupOf_of_mem_listed hk')

/-- Drops a key and its value. The list of its group stays, even if it is
    empty then. -/
def remove (k : κ) : IndexedTable β groupOf :=
  ofListed (t.table.erase k)
    (match t.index.lookup (groupOf k) with
      | some ks => t.index.insert (groupOf k) (ks.filter (· ≠ k))
      | none => t.index)
    (by
      intro k' hk'
      rw [Table.lookup_erase_eq] at hk'
      split at hk'
      · cases hk'
      · next hne =>
        have hmem := t.mem_listed hk'
        cases hks : t.index.lookup (groupOf k) with
        | none => exact hmem
        | some ks =>
          simp only
          rw [mem_listed_insert]
          split
          · next hg =>
            rw [hg, listed, hks] at hmem
            exact List.mem_filter.mpr ⟨hmem, by simpa using hne⟩
          · exact hmem)
    (by
      intro g k' hk'
      cases hks : t.index.lookup (groupOf k) with
      | none =>
        rw [hks] at hk'
        exact t.groupOf_of_mem_listed hk'
      | some ks =>
        rw [hks] at hk'
        simp only at hk'
        rw [mem_listed_insert] at hk'
        split at hk'
        · next hg =>
          have hmem : k' ∈ listed t.index g := by
            rw [hg, listed, hks]
            exact (List.mem_filter.mp hk').1
          exact t.groupOf_of_mem_listed hmem
        · exact t.groupOf_of_mem_listed hk')

/-- Drops the groups with an empty list. -/
def pruneEmpty : IndexedTable β groupOf :=
  ofListed t.table (t.index.traverse fun _ ks => if ks.isEmpty then none else some ks)
    (by
      intro k hk
      have hmem := t.mem_listed hk
      unfold listed at hmem ⊢
      rw [Table.lookup_traverse]
      cases hks : t.index.lookup (groupOf k) with
      | none => simp [hks] at hmem
      | some ks =>
        rw [hks] at hmem
        rw [Option.bind_some, if_neg (by simpa using List.ne_nil_of_mem hmem)]
        exact hmem)
    (by
      intro g k hk
      refine t.groupOf_of_mem_listed (g := g) ?_
      unfold listed at hk ⊢
      rw [Table.lookup_traverse] at hk
      cases hks : t.index.lookup g with
      | none => simp [hks] at hk
      | some ks =>
        rw [hks, Option.bind_some] at hk
        split at hk
        · simp at hk
        · exact hk)

/-- The keys listed for the groups in `p`. -/
def keysToRemove (p : γ → Bool) : List κ :=
  t.index.entries.flatMap fun e => if p e.1 then e.2 else []

theorem mem_keysToRemove {p : γ → Bool} {k : κ} :
    k ∈ t.keysToRemove p ↔ p (groupOf k) = true ∧ k ∈ listed t.index (groupOf k) := by
  unfold keysToRemove
  rw [List.mem_flatMap]
  constructor
  · rintro ⟨⟨g, ks⟩, hentry, hk⟩
    have hlookup : t.index.lookup g = some ks := AList.mem_lookup_iff.mpr hentry
    split at hk
    · next hp =>
      obtain rfl := t.grouped g ks hlookup k hk
      exact ⟨hp, exists_lookup_iff.mp ⟨ks, hlookup, hk⟩⟩
    · cases hk
  · rintro ⟨hp, hk⟩
    obtain ⟨ks, hlookup, hmem⟩ := exists_lookup_iff.mpr hk
    exact ⟨⟨groupOf k, ks⟩, AList.mem_lookup_iff.mp hlookup, by simpa [hp] using hmem⟩

theorem lookup_foldl_erase (table : Table κ β) (ks : List κ) (k : κ) :
    (ks.foldl (fun table k => table.erase k) table).lookup k =
      if k ∈ ks then none else table.lookup k := by
  induction ks generalizing table with
  | nil => simp
  | cons k' ks ih =>
    rw [List.foldl_cons, ih, Table.lookup_erase_eq]
    by_cases hk : k ∈ ks <;> by_cases heq : k = k' <;> simp [hk, heq]

/-- The table without the values of the groups in `p`. -/
def withoutGroups (p : γ → Bool) : Table κ β :=
  (t.keysToRemove p).foldl (fun table k => table.erase k) t.table

theorem lookup_withoutGroups (p : γ → Bool) (k : κ) :
    (t.withoutGroups p).lookup k = if p (groupOf k) then none else t.get k := by
  unfold withoutGroups
  rw [lookup_foldl_erase]
  by_cases hp : p (groupOf k) = true
  · -- a key that is not listed has no value
    rw [if_pos hp]
    split
    · rfl
    · next hk =>
      cases hget : t.get k with
      | none => exact hget
      | some b =>
        exact absurd (t.mem_keysToRemove.mpr ⟨hp, t.mem_listed (by rw [hget]; rfl)⟩) hk
  · rw [if_neg hp, if_neg]
    · rfl
    · exact fun hk => hp (t.mem_keysToRemove.mp hk).1

/-- One group of the index after the groups in `p` are gone: the keys without a
    value are dropped, and so is a group that is empty after that. -/
def prunedGroup (p : γ → Bool) (table : Table κ β) (g : γ) (ks : List κ) : Option (List κ) :=
  if p g then none
  else
    let kept := ks.filter fun k => (table.lookup k).isSome
    if kept.length ≠ ks.length ∧ kept = [] then none else some kept

omit [DecidableEq γ] in
theorem mem_prunedGroup {p : γ → Bool} {table : Table κ β} {g : γ} {ks : List κ} {k : κ} :
    k ∈ (prunedGroup p table g ks).getD [] ↔
      p g = false ∧ k ∈ ks ∧ (table.lookup k).isSome = true := by
  unfold prunedGroup
  split
  · next hp => simp [hp]
  · next hp =>
    have hkept : k ∈ ks.filter (fun k => (table.lookup k).isSome) ↔
        k ∈ ks ∧ (table.lookup k).isSome = true :=
      List.mem_filter
    rw [← hkept]
    simp only
    split
    · next hempty => simp [hp, hempty.2]
    · simp [hp]

/-- Drops the groups in `p` with all their values, and the keys without a value
    from the rest of the index. -/
def invalidateGroups (p : γ → Bool) : IndexedTable β groupOf :=
  ofListed (t.withoutGroups p) (t.index.traverse (prunedGroup p (t.withoutGroups p)))
    (by
      intro k hk
      have hlookup := hk
      rw [lookup_withoutGroups] at hk
      split at hk
      · cases hk
      · next hp =>
        have hmem := t.mem_listed hk
        obtain ⟨ks, hks, hmem⟩ := exists_lookup_iff.mpr hmem
        rw [listed_traverse, hks, Option.bind_some, mem_prunedGroup]
        exact ⟨by simpa using hp, hmem, hlookup⟩)
    (by
      intro g k hk
      rw [listed_traverse] at hk
      cases hks : t.index.lookup g with
      | none => simp [hks] at hk
      | some ks =>
        rw [hks, Option.bind_some, mem_prunedGroup] at hk
        exact t.grouped g ks hks k hk.2.1)

/-! ### What a lookup finds afterwards -/

@[simp] theorem get_empty (k : κ) : (empty : IndexedTable β groupOf).get k = none :=
  AList.lookup_empty k

theorem get_insert (k k' : κ) (b : β) :
    (t.insert k b).get k' = if k' = k then some b else t.get k' :=
  Table.lookup_insert_eq t.table k k' b

theorem get_remove (k k' : κ) : (t.remove k).get k' = if k' = k then none else t.get k' :=
  Table.lookup_erase_eq t.table k k'

@[simp] theorem get_pruneEmpty (k : κ) : t.pruneEmpty.get k = t.get k := rfl

/-- **Invalidation is exact.** -/
theorem get_invalidateGroups (p : γ → Bool) (k : κ) :
    (t.invalidateGroups p).get k = if p (groupOf k) then none else t.get k :=
  t.lookup_withoutGroups p k

end IndexedTable

end Synvoid.Framework
