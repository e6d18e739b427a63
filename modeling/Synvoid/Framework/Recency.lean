import Mathlib.Data.List.Nodup
import Mathlib.Logic.Function.Basic

/-! # Lists in the order of last use

    A list without counters can say which of its elements was used last, if it
    is kept in that order (`OldestFirst`). What is used goes to the end
    (`OldestFirst.append_touched`); what stays in its place although it was
    used breaks the order, unless it is there already
    (`oldestFirst_touch_iff`).
-/

namespace Synvoid.Framework

universe u

variable {α : Type u}

/-- Each element was used before all that come behind it. -/
def OldestFirst (lastUse : α → Nat) (l : List α) : Prop :=
  l.Pairwise fun a b => lastUse a < lastUse b

namespace OldestFirst

variable {lastUse : α → Nat} {l : List α}

theorem nodup (h : OldestFirst lastUse l) : l.Nodup :=
  h.imp fun hlt heq => Nat.ne_of_lt hlt (congrArg lastUse heq)

theorem sublist {l' : List α} (h : OldestFirst lastUse l) (hsub : l'.Sublist l) :
    OldestFirst lastUse l' :=
  List.Pairwise.sublist hsub h

/-- The first element is the one that was not used for the longest time. -/
theorem head {x : α} {rest : List α} (h : OldestFirst lastUse (x :: rest)) :
    ∀ y ∈ rest, lastUse x < lastUse y :=
  (List.pairwise_cons.mp h).1

end OldestFirst

variable [DecidableEq α]

/-- `x` is used at time `now`. -/
def touch (lastUse : α → Nat) (x : α) (now : Nat) : α → Nat := Function.update lastUse x now

@[simp]
theorem touch_self (lastUse : α → Nat) (x : α) (now : Nat) : touch lastUse x now x = now := by
  unfold touch
  rw [Function.update_self]

theorem touch_of_ne {x y : α} (h : y ≠ x) (lastUse : α → Nat) (now : Nat) :
    touch lastUse x now y = lastUse y := by
  unfold touch
  rw [Function.update_of_ne h]

section touched

variable {lastUse : α → Nat} {l : List α} {x : α} {now : Nat}

/-- The order of other elements does not change. -/
theorem oldestFirst_touch_of_not_mem (hx : x ∉ l) :
    OldestFirst (touch lastUse x now) l ↔ OldestFirst lastUse l := by
  have hsame : ∀ a ∈ l, touch lastUse x now a = lastUse a := by
    intro a ha
    exact touch_of_ne (ne_of_mem_of_not_mem ha hx) lastUse now
  apply List.Pairwise.iff_of_mem
  intro a b ha hb
  rw [hsame a ha, hsame b hb]

theorem OldestFirst.append_touched (h : OldestFirst lastUse l) (hbound : ∀ a ∈ l, lastUse a < now)
    (hx : x ∉ l) : OldestFirst (touch lastUse x now) (l ++ [x]) := by
  refine List.pairwise_append.mpr
    ⟨(oldestFirst_touch_of_not_mem hx).mpr h, List.pairwise_singleton _ _, ?_⟩
  intro a ha b hb
  obtain rfl := List.mem_singleton.mp hb
  rw [touch_self, touch_of_ne (ne_of_mem_of_not_mem ha hx)]
  exact hbound a ha

/-- An element that is used and not moved must be the last one already. -/
theorem oldestFirst_touch_iff (h : OldestFirst lastUse l) (hbound : ∀ a ∈ l, lastUse a < now)
    (hx : x ∈ l) : OldestFirst (touch lastUse x now) l ↔ l.getLast? = some x := by
  constructor
  · intro htouched
    obtain ⟨before, after, rfl⟩ := List.append_of_mem hx
    cases after with
    | nil => simp
    | cons y after =>
      -- then `y` would have to be used after `now`
      have hy : y ∈ before ++ x :: y :: after := by simp
      have hne : y ≠ x := by
        rintro rfl
        have hdistinct := htouched.nodup
        simp [List.nodup_append] at hdistinct
      have hlt := (htouched.sublist (List.sublist_append_right before _)).head y List.mem_cons_self
      rw [touch_self, touch_of_ne hne] at hlt
      exact absurd hlt (Nat.lt_asymm (hbound y hy))
  · intro hlast
    obtain ⟨before, rfl⟩ : ∃ before, l = before ++ [x] := by
      obtain ⟨before, hbefore⟩ := List.getLast?_eq_some_iff.mp hlast
      exact ⟨before, hbefore⟩
    have hdistinct := h.nodup
    have hnot : x ∉ before := by
      rw [List.nodup_append] at hdistinct
      exact fun hmem => hdistinct.2.2 x hmem x (List.mem_singleton_self x) rfl
    exact (h.sublist (List.sublist_append_left before [x])).append_touched
      (fun a ha => hbound a (List.mem_append_left _ ha)) hnot

end touched

end Synvoid.Framework
