import Synvoid.Framework.Glob

/-! # Matching glob routes

    Model of `glob_match` of `synvoid-serverless/src/routing.rs`, a loop over
    indices into the pattern and the path. At a star it notes where the pattern
    goes on; where a character does not match, the star takes one more.

    `round_globStep` says all that a round can do, and `globLoop_isSome` that the
    loop comes to an answer. A position in the pattern stands for the tokens that
    the pattern goes on with there (`tokensAt`).
-/

namespace Synvoid.Serverless

open Synvoid.Framework

/-! ## Section 1: The loop -/

structure GlobState where
  patternIndex : Nat
  pathIndex : Nat
  star : Option (Nat × Bool)
  starPathIndex : Nat
  deriving DecidableEq, Repr

def GlobState.start : GlobState := ⟨0, 0, none, 0⟩

/-- The second loop: what is left of the pattern behind stars. -/
def skipStars : List Char → List Char
  | '*' :: '*' :: rest => skipStars rest
  | '*' :: rest => skipStars rest
  | rest => rest

section loop
variable (pattern path : List Char)

/-- A round of the loop, or the answer. -/
def globStep (st : GlobState) : GlobState ⊕ Bool :=
  if st.pathIndex < path.length then
    if pattern[st.patternIndex]? ≠ some '*' ∧
        pattern[st.patternIndex]? = path[st.pathIndex]? then
      .inl { st with patternIndex := st.patternIndex + 1, pathIndex := st.pathIndex + 1 }
    else if pattern[st.patternIndex]? = some '*' then
      let crossesSegments : Bool := pattern[st.patternIndex + 1]? = some '*'
      let patternIndex := st.patternIndex + if crossesSegments then 2 else 1
      .inl
        { patternIndex := patternIndex
          pathIndex := st.pathIndex
          star := some (patternIndex, crossesSegments)
          starPathIndex := st.pathIndex }
    else
      match st.star with
      | some (afterStar, crossesSegments) =>
        if crossesSegments ∧ pattern[afterStar]? = some '/' then
          -- a globstar followed by a separator may match zero path segments
          .inl { st with patternIndex := afterStar + 1, star := some (afterStar + 1, true) }
        else if st.starPathIndex ≥ path.length ∨
            (¬ crossesSegments ∧ path[st.starPathIndex]? = some '/') then
          .inr false
        else
          .inl
            { patternIndex := afterStar
              pathIndex := st.starPathIndex + 1
              star := st.star
              starPathIndex := st.starPathIndex + 1 }
      | none => .inr false
  else .inr (skipStars (pattern.drop st.patternIndex) = [])

def globLoop : Nat → GlobState → Option Bool
  | 0, _ => none
  | fuel + 1, st =>
    match globStep pattern path st with
    | .inl st => globLoop fuel st
    | .inr answer => some answer

/-- More rounds than the loop makes (`globLoop_isSome`). -/
def globFuel : Nat := (pattern.length + 2) * ((path.length + 1) * (pattern.length + 1))

def globMatch : Bool := (globLoop pattern path (globFuel pattern path) .start).getD false

end loop

/-! ## Section 2: Positions -/

section positions
variable (pattern path : List Char)

/-- The position is at the start of the pattern or behind a separator. -/
def startsSegment (i : Nat) : Bool := i = 0 || pattern[i - 1]? = some '/'

/-- A `**/` there. -/
def AtGlobstarSlash (i : Nat) : Prop :=
  startsSegment pattern i = true ∧ pattern[i]? = some '*' ∧ pattern[i + 1]? = some '*' ∧
    pattern[i + 2]? = some '/'

/-- The character of the path is not the one of the pattern, and that is no star. -/
def Mismatch (st : GlobState) : Prop :=
  st.pathIndex < path.length ∧ pattern[st.patternIndex]? ≠ some '*' ∧
    pattern[st.patternIndex]? ≠ path[st.pathIndex]?

end positions

/-! ## Section 3: What a round does -/

section rounds
variable {pattern path : List Char} {st : GlobState}

/-- The branches of a round. -/
inductive Round (pattern path : List Char) (st : GlobState) : GlobState ⊕ Bool → Prop where
  | literal {c : Char} : c ≠ '*' → pattern[st.patternIndex]? = some c →
      path[st.pathIndex]? = some c →
      Round pattern path st
        (.inl { st with patternIndex := st.patternIndex + 1, pathIndex := st.pathIndex + 1 })
  | star {crosses : Bool} {after : Nat} : st.pathIndex < path.length →
      pattern[st.patternIndex]? = some '*' →
      (crosses = true ↔ pattern[st.patternIndex + 1]? = some '*') →
      after = st.patternIndex + (if crosses then 2 else 1) →
      Round pattern path st (.inl ⟨after, st.pathIndex, some (after, crosses), st.pathIndex⟩)
  | zero {after : Nat} : Mismatch pattern path st → st.star = some (after, true) →
      pattern[after]? = some '/' →
      Round pattern path st
        (.inl { st with patternIndex := after + 1, star := some (after + 1, true) })
  | advance {after : Nat} {crosses : Bool} : Mismatch pattern path st →
      st.star = some (after, crosses) → ¬ (crosses = true ∧ pattern[after]? = some '/') →
      st.starPathIndex < path.length →
      (crosses = true ∨ path[st.starPathIndex]? ≠ some '/') →
      Round pattern path st
        (.inl ⟨after, st.starPathIndex + 1, st.star, st.starPathIndex + 1⟩)
  | stuck {after : Nat} {crosses : Bool} : Mismatch pattern path st →
      st.star = some (after, crosses) → ¬ (crosses = true ∧ pattern[after]? = some '/') →
      (path.length ≤ st.starPathIndex ∨
        crosses = false ∧ path[st.starPathIndex]? = some '/') →
      Round pattern path st (.inr false)
  | noStar : Mismatch pattern path st → st.star = none → Round pattern path st (.inr false)
  | done : path.length ≤ st.pathIndex →
      Round pattern path st (.inr (skipStars (pattern.drop st.patternIndex) = []))

theorem round_globStep (pattern path : List Char) (st : GlobState) :
    Round pattern path st (globStep pattern path st) := by
  unfold globStep
  split
  · next hlt =>
    split
    · next hliteral =>
      have hc : path[st.pathIndex]? = some path[st.pathIndex] := List.getElem?_eq_getElem hlt
      refine .literal (c := path[st.pathIndex]) ?_ (hliteral.2.trans hc) hc
      intro hstar
      exact hliteral.1 ((hliteral.2.trans hc).trans (congrArg some hstar))
    · next hliteral =>
      split
      · next hstar => exact .star hlt hstar (by simp) rfl
      · next hstar =>
        have hmismatch : Mismatch pattern path st :=
          ⟨hlt, hstar, fun heq => hliteral ⟨hstar, heq⟩⟩
        split
        · next after crosses hnoted =>
          split
          · next hzero =>
            obtain ⟨rfl, hslash⟩ := hzero
            exact .zero hmismatch hnoted hslash
          · next hplain =>
            split
            · next hstuck =>
              refine .stuck hmismatch hnoted hplain ?_
              simpa using hstuck
            · next hgo =>
              rw [not_or] at hgo
              refine .advance hmismatch hnoted hplain (by omega) ?_
              cases crosses with
              | true => exact .inl rfl
              | false => exact .inr fun hslash => hgo.2 ⟨by simp, hslash⟩
        · next hnoted => exact .noStar hmismatch hnoted
  · next hge => exact .done (Nat.not_lt.mp hge)

/-! ### The loop ends -/

def GlobState.afterStar (st : GlobState) : Nat := (st.star.map Prod.fst).getD 0

/-- What bounds the rounds that are left. -/
def roundsLeft (pattern path : List Char) (st : GlobState) : Nat :=
  (pattern.length + 1 - st.afterStar) * ((path.length + 1) * (pattern.length + 1)) +
    (path.length - st.starPathIndex) * (pattern.length + 1) + (pattern.length - st.patternIndex)

structure InBounds (pattern : List Char) (st : GlobState) : Prop where
  pattern_le : st.patternIndex ≤ pattern.length
  star_le : st.afterStar ≤ st.patternIndex

theorem lt_of_getElem?_eq_some {l : List Char} {i : Nat} {c : Char} (h : l[i]? = some c) :
    i < l.length := (List.getElem?_eq_some_iff.mp h).1

theorem row_lt {m n r c : Nat} (hr : r ≤ m) (hc : c ≤ n) :
    r * (n + 1) + c < (m + 1) * (n + 1) := by
  have := Nat.mul_le_mul_right (n + 1) hr
  rw [Nat.succ_mul]
  omega

/-- A round that notes a later star may start over in the path. -/
theorem later_star {a b m n r c : Nat} (h : a < b) (hb : b ≤ n + 1) (hr : r ≤ m) (hc : c ≤ n)
    (more : Nat) :
    (n + 1 - b) * ((m + 1) * (n + 1)) + r * (n + 1) + c <
      (n + 1 - a) * ((m + 1) * (n + 1)) + more := by
  have hrow := row_lt hr hc
  have hstar : (n + 1 - b + 1) * ((m + 1) * (n + 1)) ≤ (n + 1 - a) * ((m + 1) * (n + 1)) :=
    Nat.mul_le_mul_right _ (by omega)
  rw [Nat.succ_mul] at hstar
  omega

/-- Every round leaves fewer. -/
theorem InBounds.step (h : InBounds pattern st) {st' : GlobState}
    (hstep : globStep pattern path st = .inl st') :
    InBounds pattern st' ∧ roundsLeft pattern path st' < roundsLeft pattern path st := by
  have hround := round_globStep pattern path st
  rw [hstep] at hround
  have hafter := h.star_le
  cases hround with
  | literal hc hpattern hpath =>
    have hlt := lt_of_getElem?_eq_some hpattern
    refine ⟨⟨hlt, hafter.trans (Nat.le_succ _)⟩, ?_⟩
    show _ + _ + (pattern.length - (st.patternIndex + 1)) < _ + _ + _
    simp only [GlobState.afterStar]
    omega
  | @star crosses after hlt hpattern hcrosses hnoted =>
    have hle : after ≤ pattern.length := by
      have hfirst := lt_of_getElem?_eq_some hpattern
      cases crosses with
      | false => exact hnoted ▸ hfirst
      | true =>
        have hsecond := lt_of_getElem?_eq_some (hcrosses.mp rfl)
        rw [hnoted, if_pos rfl]
        omega
    have hlater : st.patternIndex < after := by
      rw [hnoted]
      split <;> omega
    refine ⟨⟨hle, Nat.le_refl _⟩, ?_⟩
    unfold roundsLeft
    rw [Nat.add_assoc (_ * _) (_ * _) (pattern.length - st.patternIndex)]
    exact later_star (a := st.afterStar) (b := after) (by omega) (by omega) (Nat.sub_le _ _)
      (Nat.sub_le _ _) _
  | @zero after hmismatch hnoted hslash =>
    have hlt := lt_of_getElem?_eq_some hslash
    have hold : st.afterStar = after := by rw [GlobState.afterStar, hnoted]; rfl
    refine ⟨⟨hlt, Nat.le_refl _⟩, ?_⟩
    unfold roundsLeft
    rw [Nat.add_assoc (_ * _) (_ * _) (pattern.length - st.patternIndex), hold]
    exact later_star (b := after + 1) (Nat.lt_succ_self after) (by omega) (Nat.sub_le _ _)
      (Nat.sub_le _ _) _
  | @advance after crosses hmismatch hnoted hplain hlt hgo =>
    have hold : st.afterStar = after := by rw [GlobState.afterStar, hnoted]; rfl
    have hrow : path.length - st.starPathIndex = path.length - (st.starPathIndex + 1) + 1 := by
      omega
    have hle := h.pattern_le
    refine ⟨⟨show after ≤ _ by omega, hold.le⟩, ?_⟩
    show (pattern.length + 1 - st.afterStar) * ((path.length + 1) * (pattern.length + 1)) +
      (path.length - (st.starPathIndex + 1)) * (pattern.length + 1) + (pattern.length - after) <
        roundsLeft pattern path st
    unfold roundsLeft
    rw [hrow, Nat.succ_mul (path.length - (st.starPathIndex + 1))]
    omega

theorem globLoop_isSome_of_lt {fuel : Nat} (h : InBounds pattern st)
    (hfuel : roundsLeft pattern path st < fuel) : (globLoop pattern path fuel st).isSome := by
  induction fuel generalizing st with
  | zero => omega
  | succ fuel ih =>
    rw [globLoop]
    split
    · next st' hstep =>
      obtain ⟨hbounds, hless⟩ := h.step hstep
      exact ih hbounds (by omega)
    · rfl

/-- The loop comes to an answer. -/
theorem globLoop_isSome (pattern path : List Char) :
    (globLoop pattern path (globFuel pattern path) .start).isSome := by
  apply globLoop_isSome_of_lt ⟨Nat.zero_le _, Nat.le_refl _⟩
  unfold roundsLeft globFuel
  have hrow := row_lt (Nat.le_refl path.length) (Nat.le_refl pattern.length)
  show (pattern.length + 1) * _ + path.length * _ + pattern.length < (pattern.length + 1 + 1) * _
  rw [Nat.succ_mul (pattern.length + 1)]
  omega

/-! ### What a state stands for -/

def tokensAt (pattern : List Char) (i : Nat) : List GlobToken :=
  globTokens (startsSegment pattern i) (pattern.drop i)

theorem globTokens_literal (start : Bool) {c : Char} (hc : c ≠ '*') (rest : List Char) :
    globTokens start (c :: rest) = .literal c :: globTokens (c == '/') rest := by
  cases start <;> simp [globTokens, hc]

theorem drop_of_getElem? {l : List Char} {i : Nat} {c : Char} (h : l[i]? = some c) :
    l.drop i = c :: l.drop (i + 1) := by
  obtain ⟨hlt, hc⟩ := List.getElem?_eq_some_iff.mp h
  rw [List.drop_eq_getElem_cons hlt, hc]

theorem getElem?_of_drop {l rest : List Char} {i : Nat} {c : Char} (h : l.drop i = c :: rest) :
    l[i]? = some c := by
  have hhead := congrArg (·[0]?) h
  simpa using hhead

theorem tokensAt_literal {i : Nat} {c : Char} (h : pattern[i]? = some c) (hc : c ≠ '*') :
    tokensAt pattern i = .literal c :: tokensAt pattern (i + 1) := by
  have hstart : startsSegment pattern (i + 1) = (c == '/') := by
    simp [startsSegment, h]
    rfl
  rw [tokensAt, drop_of_getElem? h, globTokens_literal _ hc, tokensAt, hstart]

theorem tokensAt_star {i : Nat} {crosses : Bool} (h : pattern[i]? = some '*')
    (hcrosses : crosses = true ↔ pattern[i + 1]? = some '*')
    (hslash : ¬ AtGlobstarSlash pattern i) :
    tokensAt pattern i =
      starToken crosses :: tokensAt pattern (i + if crosses then 2 else 1) := by
  cases crosses with
  | false =>
    -- what follows is no second star
    have hstart : startsSegment pattern (i + 1) = false := by simp [startsSegment, h]
    have hnext : pattern[i + 1]? ≠ some '*' := by simpa using hcrosses
    rw [tokensAt, drop_of_getElem? h, if_neg (by decide), tokensAt, hstart]
    cases hrest : pattern.drop (i + 1) with
    | nil => cases startsSegment pattern i <;> rfl
    | cons c rest =>
      have hc : c ≠ '*' := by
        rintro rfl
        exact hnext (getElem?_of_drop hrest)
      cases startsSegment pattern i <;> simp [globTokens, hc, starToken]
  | true =>
    have hsecond := hcrosses.mp rfl
    have hstart : startsSegment pattern (i + 2) = false := by simp [startsSegment, hsecond]
    rw [tokensAt, drop_of_getElem? h, drop_of_getElem? hsecond, if_pos rfl, tokensAt, hstart]
    cases hsegment : startsSegment pattern i with
    | false => rfl
    | true =>
      -- at the start of a segment no separator follows the second star
      cases hrest : pattern.drop (i + 1 + 1) with
      | nil => rfl
      | cons c rest =>
        have hc : c ≠ '/' := by
          rintro rfl
          exact hslash ⟨hsegment, h, hsecond, getElem?_of_drop hrest⟩
        simp [globTokens, hc, starToken]

theorem tokensAt_slash {i : Nat} (h : AtGlobstarSlash pattern i) :
    tokensAt pattern i = .starStarSlash :: tokensAt pattern (i + 3) := by
  obtain ⟨hstart, hfirst, hsecond, hslash⟩ := h
  have hnext : startsSegment pattern (i + 3) = true := by simp [startsSegment, hslash]
  rw [tokensAt, drop_of_getElem? hfirst, drop_of_getElem? hsecond, drop_of_getElem? hslash, hstart,
    tokensAt, hnext]
  rfl

theorem tokensAt_zero (pattern : List Char) : tokensAt pattern 0 = globTokens true pattern := rfl

theorem tokensAt_end {i : Nat} (h : pattern[i]? = none) : tokensAt pattern i = [] := by
  rw [tokensAt, List.drop_eq_nil_of_le (List.getElem?_eq_none_iff.mp h)]
  cases startsSegment pattern i <;> rfl

theorem not_matches_of_mismatch (h : Mismatch pattern path st) :
    ¬ Matches (tokensAt pattern st.patternIndex) (path.drop st.pathIndex) := by
  obtain ⟨hlt, hstar, hne⟩ := h
  have hpath := List.getElem?_eq_getElem hlt
  rw [drop_of_getElem? hpath]
  cases hpattern : pattern[st.patternIndex]? with
  | none =>
    rw [tokensAt_end hpattern]
    exact List.cons_ne_nil _ _
  | some c =>
    have hc : c ≠ '*' := fun heq => hstar (by rw [hpattern, heq])
    rw [tokensAt_literal hpattern hc]
    rintro ⟨rest, heq, -⟩
    obtain ⟨rfl, -⟩ := List.cons.inj heq
    exact hne (hpattern.trans hpath.symm)

/-- The stars at the end of a pattern match the empty text. -/
theorem skipStars_iff {i : Nat} (h : ¬ AtGlobstarSlash pattern i) :
    skipStars (pattern.drop i) = [] ↔ Matches (tokensAt pattern i) [] := by
  cases hc : pattern[i]? with
  | none =>
    rw [tokensAt_end hc, List.drop_eq_nil_of_le (List.getElem?_eq_none_iff.mp hc)]
    exact iff_of_true rfl rfl
  | some c =>
    by_cases hstar : c = '*'
    · subst hstar
      have hbehind : ∀ k, pattern[k]? = some '*' → ¬ AtGlobstarSlash pattern (k + 1) := by
        intro k hk hat
        simp [AtGlobstarSlash, startsSegment, hk] at hat
      rcases hcrosses : decide (pattern[i + 1]? = some '*') with _ | _
      · have hnext : pattern[i + 1]? ≠ some '*' := by simpa using hcrosses
        have hone : false = true ↔ pattern[i + 1]? = some '*' := by simpa using hnext
        rw [tokensAt_star hc hone h, if_neg (by decide)]
        have hskip : skipStars (pattern.drop i) = skipStars (pattern.drop (i + 1)) := by
          rw [drop_of_getElem? hc]
          cases hrest : pattern.drop (i + 1) with
          | nil => rfl
          | cons d rest =>
            have hd : d ≠ '*' := by
              rintro rfl
              exact hnext (getElem?_of_drop hrest)
            simp [skipStars, hd]
        rw [hskip, matches_starToken_nil]
        exact skipStars_iff (hbehind i hc)
      · have hnext : pattern[i + 1]? = some '*' := by simpa using hcrosses
        have htwo : true = true ↔ pattern[i + 1]? = some '*' := by simpa using hnext
        rw [tokensAt_star hc htwo h, if_pos rfl,
          drop_of_getElem? hc, drop_of_getElem? hnext, skipStars, matches_starToken_nil]
        exact skipStars_iff (hbehind (i + 1) hnext)
    · rw [tokensAt_literal hc hstar, drop_of_getElem? hc]
      refine iff_of_false ?_ ?_
      · simp [skipStars, hstar]
      · rintro ⟨rest, heq, -⟩
        cases heq
  termination_by pattern.length - i
  decreasing_by
    all_goals
      have := lt_of_getElem?_eq_some hc
      omega

/-- The separator of a `**/` is left there. -/
theorem skipStars_slash {i : Nat} (h : AtGlobstarSlash pattern i) :
    skipStars (pattern.drop i) ≠ [] := by
  obtain ⟨-, hfirst, hsecond, hslash⟩ := h
  rw [drop_of_getElem? hfirst, drop_of_getElem? hsecond, drop_of_getElem? hslash]
  simp [skipStars]

end rounds

end Synvoid.Serverless
