import Mathlib.Data.Finset.Card
import Mathlib.Tactic.Common

/-! # Collecting names into a quorum

    A loop over a list of votes that adds the name of each vote it accepts to
    a set (`collect`). The set holds exactly the names of accepted votes
    (`mem_collect`), so a name that votes twice counts once.

    Two sets of more than two thirds of the same voters share at least one
    third of them (`card_le_three_mul_card_inter`).
-/

namespace Synvoid.Framework

universe u v

variable {α : Type u} {β : Type v} [DecidableEq β]

/-- The names of the accepted elements of a list; `name a = none` rejects
    `a`. -/
def collect (name : α → Option β) (l : List α) : Finset β :=
  l.foldl (fun names a =>
    match name a with
    | some b => insert b names
    | none => names) ∅

theorem mem_foldl_collect (name : α → Option β) (l : List α) (names : Finset β) (b : β) :
    b ∈ l.foldl (fun names a =>
      match name a with
      | some b => insert b names
      | none => names) names ↔ b ∈ names ∨ ∃ a ∈ l, name a = some b := by
  induction l generalizing names with
  | nil => simp
  | cons a l ih =>
    rw [List.foldl_cons, ih]
    cases hname : name a with
    | none => simp [hname]
    | some c =>
      simp only [Finset.mem_insert, List.mem_cons, exists_eq_or_imp, hname, Option.some.injEq]
      tauto

theorem mem_collect {name : α → Option β} {l : List α} {b : β} :
    b ∈ collect name l ↔ ∃ a ∈ l, name a = some b := by
  unfold collect
  rw [mem_foldl_collect]
  simp

/-- **Quorum intersection.** -/
theorem card_le_three_mul_card_inter {voters s t : Finset β} (hs : s ⊆ voters) (ht : t ⊆ voters)
    (hcs : voters.card * 2 / 3 + 1 ≤ s.card) (hct : voters.card * 2 / 3 + 1 ≤ t.card) :
    voters.card ≤ 3 * (s ∩ t).card := by
  have hunion : (s ∪ t).card ≤ voters.card := Finset.card_le_card (Finset.union_subset hs ht)
  have hsum := Finset.card_union_add_card_inter s t
  omega

end Synvoid.Framework
