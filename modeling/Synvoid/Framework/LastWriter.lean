import Synvoid.Framework.KeyedTable
import Mathlib.Data.List.Induction

/-! # Last writer wins

    A place that takes a value if its rank is higher than that of the value
    it has. After any list of offers it has the value of highest rank
    (`isLast_foldl_offerAt`). If no two values have the same rank, this value
    depends only on which values were offered, not on their order or number
    (`IsLast.unique`).
-/

namespace Synvoid.Framework

universe u v

variable {β : Type u} {ρ : Type v} [LinearOrder ρ]

/-- The value has a higher rank than the current one. -/
def newer (rank : β → ρ) (current : Option β) (b : β) : Bool :=
  current.all fun a => rank a < rank b

/-- The value of highest rank in a list, if there is one. -/
def IsLast (rank : β → ρ) (l : List β) : Option β → Prop
  | none => l = []
  | some a => a ∈ l ∧ ∀ b ∈ l, rank b ≤ rank a

theorem IsLast.offerAt {rank : β → ρ} {l : List β} {current : Option β}
    (h : IsLast rank l current) (b : β) :
    IsLast rank (l ++ [b]) (KeyedTable.offerAt (newer rank) current b) := by
  cases current with
  | none =>
    obtain rfl : l = [] := h
    simp [KeyedTable.offerAt, newer, IsLast]
  | some a =>
    obtain ⟨hmem, hmax⟩ := h
    by_cases hlt : rank a < rank b
    · have haccept : KeyedTable.offerAt (newer rank) (some a) b = some b := by
        simp [KeyedTable.offerAt, newer, hlt]
      rw [haccept]
      refine ⟨by simp, ?_⟩
      intro c hc
      rcases List.mem_append.mp hc with hc | hc
      · exact le_of_lt (lt_of_le_of_lt (hmax c hc) hlt)
      · obtain rfl : c = b := by simpa using hc
        exact le_rfl
    -- of two values of the same rank the first one stays
    · have hkeep : KeyedTable.offerAt (newer rank) (some a) b = some a := by
        simp [KeyedTable.offerAt, newer, hlt]
      rw [hkeep]
      refine ⟨by simp [hmem], ?_⟩
      intro c hc
      rcases List.mem_append.mp hc with hc | hc
      · exact hmax c hc
      · obtain rfl : c = b := by simpa using hc
        exact le_of_not_gt hlt

/-- Offers leave the value of highest rank. -/
theorem isLast_foldl_offerAt (rank : β → ρ) (l : List β) :
    IsLast rank l (l.foldl (KeyedTable.offerAt (newer rank)) none) := by
  induction l using List.reverseRecOn with
  | nil => rfl
  | append_singleton l b ih =>
    rw [List.foldl_append]
    exact ih.offerAt b

/-- **The last value is determined by the set of values offered**, if their
    ranks are different. -/
theorem IsLast.unique {rank : β → ρ} {l l' : List β} (hsame : ∀ a, a ∈ l ↔ a ∈ l')
    (hinj : ∀ a ∈ l, ∀ b ∈ l, rank a = rank b → a = b) {o o' : Option β} (h : IsLast rank l o)
    (h' : IsLast rank l' o') : o = o' := by
  cases o with
  | none =>
    obtain rfl : l = [] := h
    cases o' with
    | none => rfl
    | some b => exact absurd ((hsame b).mpr h'.1) List.not_mem_nil
  | some a =>
    cases o' with
    | none =>
      obtain rfl : l' = [] := h'
      exact absurd ((hsame a).mp h.1) List.not_mem_nil
    | some b =>
      have hb : b ∈ l := (hsame b).mpr h'.1
      have hrank : rank a = rank b :=
        le_antisymm (h'.2 a ((hsame a).mp h.1)) (h.2 b hb)
      rw [hinj a h.1 b hb hrank]

theorem IsLast.eq_some_iff {rank : β → ρ} {l : List β}
    (hinj : ∀ a ∈ l, ∀ b ∈ l, rank a = rank b → a = b) {o : Option β} (h : IsLast rank l o)
    (a : β) : o = some a ↔ a ∈ l ∧ ∀ b ∈ l, rank b ≤ rank a := by
  constructor
  · intro ho
    rw [ho] at h
    exact h
  · intro hlast
    have h' : IsLast rank l (some a) := hlast
    exact IsLast.unique (fun _ => Iff.rfl) hinj h h'

end Synvoid.Framework
