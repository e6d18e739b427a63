import Mathlib.Data.List.Basic
import Mathlib.Data.Int.Order.Basic

/-! # Tables of rows with a primary key

    A table is the list of its rows in the order in which a scan visits them.
    The primary key is a function of the row, and no two rows have the same
    key.

    * `SortedTable`: the key is the row number, so the rows are in the order of
      their keys. An insertion fails on a key that is there (`insert`); a row
      with a new greatest key comes last (`insert_of_lt`). A page of rows is
      cut by number, and `filter_take` says when nothing of a range is lost.
    * `RowTable`: the rows are in the order of insertion. A row is found by its
      key (`get`), and `upsert` replaces the row with the same key.
-/

namespace Synvoid.Framework

universe u v

/-! ## Section 1: Rows in the order of their keys -/

structure SortedTable {ρ : Type u} (keyOf : ρ → Int) where
  rows : List ρ
  sorted : rows.Pairwise fun a b => keyOf a < keyOf b

namespace SortedTable

variable {ρ : Type u} {keyOf : ρ → Int}

def empty : SortedTable keyOf := ⟨[], .nil⟩

/-- `INSERT`: fails if the key is there. -/
def insert (t : SortedTable keyOf) (row : ρ) : Option (SortedTable keyOf) :=
  if t.rows.any fun r => keyOf r = keyOf row then none
  else
    some
      { rows := t.rows.filter (fun r => keyOf r < keyOf row) ++
          row :: t.rows.filter (fun r => keyOf row < keyOf r)
        sorted := by
          rw [List.pairwise_append, List.pairwise_cons]
          refine ⟨t.sorted.filter _, ⟨?_, t.sorted.filter _⟩, ?_⟩
          · intro r hr
            simpa using (List.mem_filter.mp hr).2
          · intro r hr r' hr'
            have hlt : keyOf r < keyOf row := by simpa using (List.mem_filter.mp hr).2
            rcases List.mem_cons.mp hr' with rfl | hr'
            · exact hlt
            · have hlt' : keyOf row < keyOf r' := by simpa using (List.mem_filter.mp hr').2
              exact Int.lt_trans hlt hlt' }

/-- `DELETE ... WHERE`. -/
def delete (t : SortedTable keyOf) (p : ρ → Bool) : SortedTable keyOf :=
  ⟨t.rows.filter fun r => !p r, t.sorted.filter _⟩

/-- A row with a new greatest key comes last. -/
theorem insert_of_lt {t : SortedTable keyOf} {row : ρ}
    (h : ∀ r ∈ t.rows, keyOf r < keyOf row) :
    ∃ t', t.insert row = some t' ∧ t'.rows = t.rows ++ [row] := by
  have hnew : (t.rows.any fun r => keyOf r = keyOf row) = false := by
    rw [List.any_eq_false]
    intro r hr
    simpa using Int.ne_of_lt (h r hr)
  have hbelow : t.rows.filter (fun r => keyOf r < keyOf row) = t.rows := by
    rw [List.filter_eq_self]
    intro r hr
    simpa using h r hr
  have habove : t.rows.filter (fun r => keyOf row < keyOf r) = [] := by
    rw [List.filter_eq_nil_iff]
    intro r hr
    simpa using Int.le_of_lt (h r hr)
  unfold insert
  rw [hnew]
  refine ⟨_, rfl, ?_⟩
  show t.rows.filter (fun r => keyOf r < keyOf row) ++
    row :: t.rows.filter (fun r => keyOf row < keyOf r) = t.rows ++ [row]
  rw [hbelow, habove]

end SortedTable

/-- In a list with increasing keys from `start` on, the first `n` elements
    include all with a key below `start + n`. -/
theorem filter_take {ρ : Type u} {keyOf : ρ → Int} {l : List ρ}
    (hsorted : l.Pairwise fun a b => keyOf a < keyOf b) {start : Int}
    (hstart : ∀ r ∈ l, start ≤ keyOf r) (n : Nat) :
    (l.take n).filter (fun r => keyOf r < start + n) = l.filter fun r => keyOf r < start + n := by
  induction l generalizing start n with
  | nil => simp
  | cons r l ih =>
    have hhead := hstart r List.mem_cons_self
    rw [List.pairwise_cons] at hsorted
    cases n with
    | zero =>
      -- all keys are at least `start`
      symm
      simp only [List.take_zero, List.filter_nil, List.filter_eq_nil_iff]
      intro r' hr'
      have := hstart r' hr'
      simpa using this
    | succ n =>
      have hrest : ∀ r' ∈ l, start + 1 ≤ keyOf r' := by
        intro r' hr'
        have := hsorted.1 r' hr'
        omega
      have hcast : start + (n + 1 : Nat) = start + 1 + n := by omega
      rw [List.take_succ_cons, List.filter_cons, List.filter_cons, hcast, ih hsorted.2 hrest n]

/-! ## Section 2: Rows in the order of insertion -/

structure RowTable {ρ : Type u} {κ : Type v} (keyOf : ρ → κ) where
  rows : List ρ
  nodup : (rows.map keyOf).Nodup

namespace RowTable

variable {ρ : Type u} {κ : Type v} {keyOf : ρ → κ}

def empty : RowTable keyOf := ⟨[], .nil⟩

theorem ext_rows {t t' : RowTable keyOf} (h : t.rows = t'.rows) : t = t' := by
  cases t
  cases t'
  cases h
  rfl

variable [DecidableEq κ]

/-- The row under a key. -/
def get (t : RowTable keyOf) (k : κ) : Option ρ := t.rows.find? fun r => keyOf r = k

/-- `DELETE ... WHERE` the key is the given one. -/
def erase (t : RowTable keyOf) (k : κ) : RowTable keyOf :=
  ⟨t.rows.filter fun r => keyOf r ≠ k, t.nodup.sublist (List.filter_sublist.map keyOf)⟩

/-- `INSERT`: fails if the key is there. -/
def insert (t : RowTable keyOf) (row : ρ) : Option (RowTable keyOf) :=
  if h : keyOf row ∈ t.rows.map keyOf then none
  else
    some ⟨t.rows ++ [row], by
      rw [List.map_append, List.nodup_append]
      refine ⟨t.nodup, List.pairwise_singleton _ _, ?_⟩
      intro k hk k' hk' heq
      obtain rfl : k' = keyOf row := by simpa using hk'
      exact h (heq ▸ hk)⟩

/-- `INSERT OR REPLACE`. -/
def upsert (t : RowTable keyOf) (row : ρ) : RowTable keyOf :=
  ⟨(t.erase (keyOf row)).rows ++ [row], by
    rw [List.map_append, List.nodup_append]
    refine ⟨(t.erase (keyOf row)).nodup, List.pairwise_singleton _ _, ?_⟩
    intro k hk k' hk' heq
    obtain rfl : k' = keyOf row := by simpa using hk'
    obtain ⟨r, hr, rfl⟩ := List.mem_map.mp hk
    exact absurd heq (by simpa using (List.mem_filter.mp hr).2)⟩

/-- Rows are inserted until one fails. -/
def insertAll (t : RowTable keyOf) : List ρ → Bool × RowTable keyOf
  | [] => (true, t)
  | row :: rows =>
      match t.insert row with
      | none => (false, t)
      | some t => t.insertAll rows

theorem insert_eq_none {t : RowTable keyOf} {row : ρ} :
    t.insert row = none ↔ keyOf row ∈ t.rows.map keyOf := by
  unfold insert
  split <;> simp_all

theorem rows_of_insert {t t' : RowTable keyOf} {row : ρ} (h : t.insert row = some t') :
    t'.rows = t.rows ++ [row] := by
  unfold insert at h
  split at h
  · cases h
  · rw [← Option.some.inj h]

/-- Rows with new keys are all inserted. -/
theorem insertAll_of_nodup {t : RowTable keyOf} {rows : List ρ}
    (h : ((t.rows ++ rows).map keyOf).Nodup) :
    ∃ t', t.insertAll rows = (true, t') ∧ t'.rows = t.rows ++ rows := by
  induction rows generalizing t with
  | nil => exact ⟨t, rfl, by simp⟩
  | cons row rows ih =>
    have hnew : keyOf row ∉ t.rows.map keyOf := by
      rw [List.map_append, List.nodup_append] at h
      intro hmem
      exact h.2.2 _ hmem _ (by simp) rfl
    rcases hinsert : t.insert row with _ | t₁
    · exact absurd (insert_eq_none.mp hinsert) hnew
    · have hrows := rows_of_insert hinsert
      obtain ⟨t', hall, hrows'⟩ := ih (t := t₁) (by rw [hrows]; simpa using h)
      refine ⟨t', ?_, ?_⟩
      · rw [insertAll, hinsert]
        exact hall
      · rw [hrows', hrows]
        simp

end RowTable

end Synvoid.Framework
