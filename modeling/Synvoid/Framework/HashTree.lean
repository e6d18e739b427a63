import Mathlib.Data.Nat.Bitwise
import Mathlib.Data.List.Basic
import Mathlib.Tactic.Common

/-! # Binary hash trees, level by level

    A hash tree is kept as the list of its levels, the leaves first and the
    root last. Each level is obtained from the one below by combining
    neighbours (`parents`); the last element of an odd level is combined with
    a padding value.

    * `levels` builds a tree from its leaves. It stops at a level of at most
      one element, and `levels_induction` follows it.
    * `rehash` repairs the path above one changed leaf (`rehash_levels`).
    * `siblings` reads the path off a tree, and `climb` recomputes the root
      from a leaf and its path (`climb_siblings`).

    The combining function is arbitrary.
-/

namespace Synvoid.Framework

universe u

variable {δ : Type u} (node : δ → δ → δ) (pad : δ)

/-! ### Levels -/

/-- The level above a given one. -/
def parents : List δ → List δ
  | [] => []
  | [left] => [node left pad]
  | left :: right :: rest => node left right :: parents rest

theorem length_parents (level : List δ) :
    (parents node pad level).length = (level.length + 1) / 2 := by
  induction level using parents.induct with
  | case1 => simp [parents]
  | case2 left => simp [parents]
  | case3 left right rest ih =>
    simp only [parents, List.length_cons, ih]
    omega

theorem getElem?_parents (level : List δ) (i : Nat) :
    (parents node pad level)[i]? =
      level[2 * i]?.map fun left => node left (level.getD (2 * i + 1) pad) := by
  induction level using parents.induct generalizing i with
  | case1 => simp [parents]
  | case2 left => cases i <;> simp [parents]
  | case3 left right rest ih =>
    cases i with
    | zero => rfl
    | succ i =>
      have hleft : 2 * (i + 1) = 2 * i + 1 + 1 := by omega
      rw [hleft]
      simp only [parents, List.getElem?_cons_succ, ih, List.getD_cons_succ]

/-- A changed element changes its parent, and nothing else. -/
theorem parents_set (level : List δ) (i : Nat) (x : δ) :
    parents node pad (level.set i x) =
      (parents node pad level).set (i / 2)
        (node ((level.set i x).getD (2 * (i / 2)) pad)
          ((level.set i x).getD (2 * (i / 2) + 1) pad)) := by
  apply List.ext_getElem?
  intro j
  by_cases hj : i / 2 = j
  · subst hj
    rw [List.getElem?_set_self', getElem?_parents, getElem?_parents]
    by_cases hlt : i < level.length
    · have hleft : 2 * (i / 2) < level.length := by omega
      have hleft' : 2 * (i / 2) < (level.set i x).length := by simpa using hleft
      rw [List.getElem?_eq_getElem hleft, List.getElem?_eq_getElem hleft',
        List.getD_eq_getElem _ _ hleft']
      rfl
    · rw [List.set_eq_of_length_le (by omega)]
      rcases hleft : level[2 * (i / 2)]? with _ | left
      · rfl
      · simp [List.getD_eq_getElem?_getD, hleft]
  · rw [List.getElem?_set_ne hj, getElem?_parents, getElem?_parents]
    -- both children of `j` are other elements
    have hleft : i ≠ 2 * j := by omega
    have hright : i ≠ 2 * j + 1 := by omega
    simp [List.getD_eq_getElem?_getD, List.getElem?_set_ne hleft, List.getElem?_set_ne hright]

/-- The levels from a given one up; the fuel bounds their number. -/
def levelsIn : Nat → List δ → List (List δ)
  | 0, level => [level]
  | fuel + 1, level =>
      if 1 < level.length then level :: levelsIn fuel (parents node pad level) else [level]

/-- All levels of the tree with the given leaves. -/
def levels (leaves : List δ) : List (List δ) := levelsIn node pad leaves.length leaves

/-- More fuel than elements makes no difference. -/
theorem levelsIn_eq_levels {fuel : Nat} {level : List δ} (h : level.length ≤ fuel) :
    levelsIn node pad fuel level = levels node pad level := by
  have hany : ∀ fuel fuel' (level : List δ), level.length ≤ fuel → level.length ≤ fuel' →
      levelsIn node pad fuel level = levelsIn node pad fuel' level := by
    intro fuel
    induction fuel with
    | zero =>
      intro fuel' level hle _
      have hnil : ¬ 1 < level.length := by omega
      cases fuel' with
      | zero => rfl
      | succ fuel' => simp only [levelsIn, if_neg hnil]
    | succ fuel ih =>
      intro fuel' level hle hle'
      by_cases hlen : 1 < level.length
      · obtain ⟨fuel', rfl⟩ : ∃ n, fuel' = n + 1 := ⟨fuel' - 1, by omega⟩
        have hshort := length_parents node pad level
        simp only [levelsIn, if_pos hlen]
        rw [ih fuel' _ (by omega) (by omega)]
      · cases fuel' with
        | zero => simp only [levelsIn, if_neg hlen]
        | succ fuel' => simp only [levelsIn, if_neg hlen]
  exact hany fuel level.length level h le_rfl

theorem levels_of_le {level : List δ} (h : level.length ≤ 1) : levels node pad level = [level] := by
  unfold levels
  rcases hlen : level.length with _ | n
  · rfl
  · simp only [levelsIn]
    rw [if_neg (by omega)]

theorem levels_of_lt {level : List δ} (h : 1 < level.length) :
    levels node pad level = level :: levels node pad (parents node pad level) := by
  obtain ⟨n, hn⟩ : ∃ n, level.length = n + 1 := ⟨level.length - 1, by omega⟩
  have hshort := length_parents node pad level
  unfold levels
  rw [hn]
  simp only [levelsIn, if_pos h]
  rw [levelsIn_eq_levels node pad (by omega)]
  rfl

/-- **Induction along the levels.** -/
theorem levels_induction {P : List δ → Prop} (hsmall : ∀ level, level.length ≤ 1 → P level)
    (hstep : ∀ level, 1 < level.length → P (parents node pad level) → P level)
    (level : List δ) : P level := by
  induction hn : level.length using Nat.strong_induction_on generalizing level with
  | _ n ih =>
    by_cases hlen : 1 < level.length
    · have hshort := length_parents node pad level
      exact hstep level hlen (ih _ (by omega) _ rfl)
    · exact hsmall level (by omega)

theorem head?_levels (level : List δ) : (levels node pad level).head? = some level := by
  by_cases hlen : 1 < level.length
  · rw [levels_of_lt node pad hlen]
    rfl
  · rw [levels_of_le node pad (by omega)]
    rfl

theorem levels_ne_nil (level : List δ) : levels node pad level ≠ [] := by
  intro h
  have hhead := head?_levels node pad level
  rw [h] at hhead
  cases hhead

/-- The only element of the last level. -/
def rootOf (tree : List (List δ)) : Option δ := tree.getLast?.bind List.head?

theorem rootOf_levels_of_lt {level : List δ} (h : 1 < level.length) :
    rootOf (levels node pad level) = rootOf (levels node pad (parents node pad level)) := by
  rw [levels_of_lt node pad h]
  unfold rootOf
  obtain ⟨top, rest, hcons⟩ := List.exists_cons_of_ne_nil
    (levels_ne_nil node pad (parents node pad level))
  rw [hcons, List.getLast?_cons_cons]

/-- **The root is combined from the two elements of the level below it.** -/
theorem exists_top_pair {level : List δ} (h : 1 < level.length) :
    ∃ left right, (levels node pad level).dropLast.getLast? = some [left, right] ∧
      rootOf (levels node pad level) = some (node left right) := by
  induction level using levels_induction node pad with
  | hsmall level hlen => omega
  | hstep level hlen ih =>
    have hshort := length_parents node pad level
    by_cases htop : 1 < (parents node pad level).length
    · obtain ⟨left, right, hpair, hroot⟩ := ih htop
      refine ⟨left, right, ?_, ?_⟩
      · rw [levels_of_lt node pad hlen]
        obtain ⟨below, rest, hcons⟩ := List.exists_cons_of_ne_nil
          (show (levels node pad (parents node pad level)).dropLast ≠ [] by
            intro hnil
            rw [hnil] at hpair
            cases hpair)
        have hne := levels_ne_nil node pad (parents node pad level)
        rw [List.dropLast_cons_of_ne_nil hne, hcons, List.getLast?_cons_cons, ← hcons]
        exact hpair
      · rw [rootOf_levels_of_lt node pad hlen]
        exact hroot
    · -- two elements are left
      obtain ⟨left, right, rfl⟩ : ∃ left right, level = [left, right] :=
        List.length_eq_two.mp (by omega)
      exact ⟨left, right, rfl, rfl⟩

/-! ### Repairing a path -/

/-- Recomputes the elements above position `i` of the level `below`. -/
def rehash : Nat → List δ → List (List δ) → List (List δ)
  | _, below, [] => [below]
  | i, below, level :: rest =>
      below :: rehash (i / 2)
        (level.set (i / 2) (node (below.getD (2 * (i / 2)) pad) (below.getD (2 * (i / 2) + 1) pad)))
        rest

@[simp] theorem length_rehash (i : Nat) (below : List δ) (above : List (List δ)) :
    (rehash node pad i below above).length = above.length + 1 := by
  induction above generalizing i below with
  | nil => rfl
  | cons level rest ih => simp [rehash, ih]

theorem levels_eq_cons_tail (level : List δ) :
    levels node pad level = level :: (levels node pad level).tail := by
  have hhead := head?_levels node pad level
  obtain ⟨top, rest, hcons⟩ := List.exists_cons_of_ne_nil (levels_ne_nil node pad level)
  rw [hcons] at hhead ⊢
  obtain rfl := Option.some.inj hhead
  rfl

/-- **A repaired path gives the tree of the changed leaves.** -/
theorem rehash_levels (leaves : List δ) (i : Nat) (x : δ) :
    rehash node pad i (leaves.set i x) (levels node pad leaves).tail =
      levels node pad (leaves.set i x) := by
  induction leaves using levels_induction node pad generalizing i x with
  | hsmall level hlen =>
    rw [levels_of_le node pad hlen, levels_of_le node pad (by simpa using hlen)]
    rfl
  | hstep level hlen ih =>
    have hlen' : 1 < (level.set i x).length := by simpa using hlen
    rw [levels_of_lt node pad hlen, levels_of_lt node pad hlen', List.tail_cons, parents_set, ← ih]
    -- the next level is the one that `rehash` sets
    rw [levels_eq_cons_tail node pad (parents node pad level)]
    rfl

/-! ### Paths -/

/-- The siblings on the way from position `i` of the lowest level to the root,
    each with whether it stands on the right. -/
def siblings : Nat → List (List δ) → List (Bool × δ)
  | i, level :: above :: rest =>
      (i % 2 == 0, level.getD (i ^^^ 1) pad) :: siblings (i / 2) (above :: rest)
  | _, _ => []

/-- One step up. -/
def climbStep (h : δ) (sibling : Bool × δ) : δ :=
  if sibling.1 then node h sibling.2 else node sibling.2 h

/-- The root that a leaf and its path lead to. -/
def climb (h : δ) (path : List (Bool × δ)) : δ := path.foldl (climbStep node) h

theorem siblings_levels_of_lt {level : List δ} (h : 1 < level.length) (i : Nat) :
    siblings pad i (levels node pad level) =
      (i % 2 == 0, level.getD (i ^^^ 1) pad) ::
        siblings pad (i / 2) (levels node pad (parents node pad level)) := by
  rw [levels_of_lt node pad h]
  obtain ⟨top, rest, hcons⟩ := List.exists_cons_of_ne_nil
    (levels_ne_nil node pad (parents node pad level))
  rw [hcons]
  rfl

theorem siblings_levels_of_le {level : List δ} (h : level.length ≤ 1) (i : Nat) :
    siblings pad i (levels node pad level) = [] := by
  rw [levels_of_le node pad h]
  rfl

/-- A step up leads to the parent. -/
theorem getElem?_parents_climbStep {level : List δ} {i : Nat} {h : δ} (hi : level[i]? = some h) :
    (parents node pad level)[i / 2]? =
      some (climbStep node h (i % 2 == 0, level.getD (i ^^^ 1) pad)) := by
  rw [getElem?_parents]
  unfold climbStep
  rcases Nat.mod_two_eq_zero_or_one i with heven | hodd
  · have hpos : 2 * (i / 2) = i := by omega
    rw [hpos, hi, Nat.xor_one_of_even (Nat.even_iff.mpr heven)]
    simp [heven]
  · have hpos : 2 * (i / 2) = i - 1 := by omega
    have hsucc : i - 1 + 1 = i := by omega
    have hlt : i < level.length := (List.getElem?_eq_some_iff.mp hi).1
    rw [hpos, hsucc, Nat.xor_one_of_odd (Nat.odd_iff.mpr hodd),
      List.getElem?_eq_getElem (show i - 1 < level.length by omega)]
    simp [hodd, hi, List.getD_eq_getElem?_getD,
      List.getElem?_eq_getElem (show i - 1 < level.length by omega)]

/-- **The path of a leaf leads to the root.** -/
theorem climb_siblings {leaves : List δ} {i : Nat} {h : δ} (hi : leaves[i]? = some h) :
    rootOf (levels node pad leaves) =
      some (climb node h (siblings pad i (levels node pad leaves))) := by
  induction leaves using levels_induction node pad generalizing i h with
  | hsmall level hlen =>
    have hlt : i < level.length := (List.getElem?_eq_some_iff.mp hi).1
    obtain rfl : i = 0 := by omega
    rw [siblings_levels_of_le node pad hlen, levels_of_le node pad hlen]
    show level.head? = some h
    rw [List.head?_eq_getElem?]
    exact hi
  | hstep level hlen ih =>
    rw [rootOf_levels_of_lt node pad hlen, siblings_levels_of_lt node pad hlen,
      ih (getElem?_parents_climbStep node pad hi)]
    rfl

end Synvoid.Framework
