import Synvoid.Serverless.GlobMatch

/-! # Which glob routes mean what they say

    The loop of `glob_match` notes the last star only. It is right as long as the
    later star may take what the earlier one could. It goes wrong where a single
    star is noted in place of a double one, and at a `**/`, for which it has no
    notion of whole segments: it takes the separator as a character of the path
    while the path goes on as the pattern does, and leaves it out for good when it
    does not.

    `RightReading` says on the pattern and the path that none of this does harm. It
    looks at each star of the pattern and at the shortest front of the path that the
    tokens before the star match, which is where the loop comes to the star
    (`Arrives`). Under it the loop keeps what is still to be matched
    (`Place.step`), and its answer is what the pattern means (`globMatch_iff`).
-/

namespace Synvoid.Serverless

open Synvoid.Framework

/-! ## Section 1: Where a star is met -/

/-- A `**/` as a double star and a separator. -/
def spelled (tokens : List GlobToken) : List GlobToken :=
  tokens.flatMap fun
    | .starStarSlash => [.starStar, .literal '/']
    | token => [token]

/-- The shortest front of the path that the tokens match. -/
structure Arrives (tokens : List GlobToken) (path front : List Char) : Prop where
  begins : front <+: path
  read : Matches (spelled tokens) front
  first : ∀ shorter, shorter <+: path → Matches (spelled tokens) shorter →
    front.length ≤ shorter.length

/-- The last star is a double one. -/
def EndsCrossing (tokens : List GlobToken) : Prop :=
  ∃ front token l, tokens = front ++ token :: literals l ∧
    (token = .starStar ∨ token = .starStarSlash)

/-- The literals up to the next star. -/
def literalRun : List GlobToken → List Char
  | .literal c :: tokens => c :: literalRun tokens
  | _ => []

/-- The text goes on as the literals do, until it ends or a star comes. -/
def Agrees (tokens : List GlobToken) (rest : List Char) : Prop :=
  rest <+: literalRun tokens ∨
    literalRun tokens <+: rest ∧ tokens ≠ literals (literalRun tokens)

/-- Only double stars, and no separator at the start or behind one of them. -/
structure Plain (tokens : List GlobToken) : Prop where
  head : tokens.head? ≠ some (.literal '/')
  star : .star ∉ tokens
  slash : .starStarSlash ∉ tokens
  behind : ¬ [.starStar, .literal '/'] <:+: tokens

/-- The tokens are a double star and a separator, with `tail` behind them. -/
def SlashTail (token : GlobToken) (after tail : List GlobToken) : Prop :=
  token = .starStarSlash ∧ after = tail ∨ token = .starStar ∧ after = .literal '/' :: tail

/-- The loop does no harm at a star. -/
structure SoundAt (before : List GlobToken) (token : GlobToken) (after : List GlobToken)
    (rest : List Char) : Prop where
  /-- A single star does not take the place of a double one. -/
  single : token = .star → rest ≠ [] → ¬ EndsCrossing before
  /-- While the path goes on as the pattern does, the separator can be taken from it. -/
  straight : ∀ tail, SlashTail token after tail → Agrees (.literal '/' :: tail) rest →
    Matches (token :: after) rest → Matches (.starStar :: .literal '/' :: tail) rest
  /-- Where it does not, the separator can be left out. -/
  opened : ∀ tail, SlashTail token after tail → ¬ Agrees (.literal '/' :: tail) rest →
    rest.head? ≠ some '/' ∧ Plain tail ∧
      (Matches (.starStar :: tail) rest → Matches (token :: after) rest)

def RightReading (pattern path : List Char) : Prop :=
  ∀ before token after front rest, globTokens true pattern = before ++ token :: after →
    path = front ++ rest → Arrives before path front → SoundAt before token after rest

/-! ### Tokens -/

theorem spelled_append (tokens tokens' : List GlobToken) :
    spelled (tokens ++ tokens') = spelled tokens ++ spelled tokens' := List.flatMap_append

theorem spelled_literals (l : List Char) : spelled (literals l) = literals l := by
  induction l with
  | nil => rfl
  | cons c l ih => exact congrArg (.literal c :: ·) ih

theorem spelled_starToken (crosses : Bool) (tokens : List GlobToken) :
    spelled (starToken crosses :: tokens) = starToken crosses :: spelled tokens := by
  cases crosses <;> rfl

theorem literalRun_append (l : List Char) (tokens : List GlobToken) :
    literalRun (literals l ++ tokens) = l ++ literalRun tokens := by
  induction l with
  | nil => rfl
  | cons c l ih => exact congrArg (c :: ·) ih

/-- Behind a star and the literals that were found for the first time, the tokens
    before the next star have their shortest front. -/
theorem Arrives.next {before before' : List GlobToken} {path front u l : List Char}
    {crosses : Bool} (h : Arrives before path front)
    (hspelled : spelled before' = spelled before ++ starToken crosses :: literals l)
    (hpath : front ++ u ++ l <+: path) (htakes : Takes crosses u)
    (hfirst : ∀ q, front.length ≤ q → q < front.length + u.length → ¬ l <+: path.drop q) :
    Arrives before' path (front ++ u ++ l) := by
  refine ⟨hpath, ?_, fun shorter hshorter hmatch => ?_⟩
  · rw [hspelled, List.append_assoc]
    refine matches_append.mpr ⟨front, u ++ l, rfl, h.read, ?_⟩
    exact matches_starToken.mpr ⟨u, l, rfl, htakes, matches_literals.mpr rfl⟩
  · rw [hspelled] at hmatch
    obtain ⟨front', rest, rfl, hfront', hrest⟩ := matches_append.mp hmatch
    obtain ⟨v, l', rfl, -, hl⟩ := matches_starToken.mp hrest
    obtain rfl := matches_literals.mp hl
    have hle := h.first front' ((List.prefix_append _ _).trans hshorter) hfront'
    simp only [List.length_append]
    by_contra hlt
    -- the literals would have been found before
    refine hfirst (front'.length + v.length) (by omega) (by omega) ?_
    obtain ⟨tail, rfl⟩ := hshorter
    refine ⟨tail, ?_⟩
    rw [← List.length_append, ← List.append_assoc, List.append_assoc (front' ++ v), List.drop_left]

/-! ## Section 2: Where the loop is -/

section places
variable {pattern path : List Char} {st : GlobState}

/-- The pattern from `after` and the path from where the star is tried go on with `l` up to
    where the loop is. -/
structure Between (pattern path : List Char) (st : GlobState) (after : Nat) (l : List Char) :
    Prop where
  index : st.patternIndex = after + l.length
  place : st.pathIndex = st.starPathIndex + l.length
  run : pattern.drop after = l ++ pattern.drop st.patternIndex
  literal : '*' ∉ l
  read : path.drop st.starPathIndex = l ++ path.drop st.pathIndex

theorem tokensAt_run {l : List Char} {after : Nat} (hliteral : '*' ∉ l)
    (hrun : pattern.drop after = l ++ pattern.drop (after + l.length)) :
    tokensAt pattern after = literals l ++ tokensAt pattern (after + l.length) := by
  induction l generalizing after with
  | nil => rfl
  | cons c l ih =>
    have hc : pattern[after]? = some c := getElem?_of_drop hrun
    rw [drop_of_getElem? hc, List.cons_append, List.cons.injEq] at hrun
    obtain ⟨hne, hl⟩ := not_or.mp (List.mem_cons.not.mp hliteral)
    have hindex : after + (c :: l).length = after + 1 + l.length := by
      rw [List.length_cons]
      omega
    rw [hindex] at hrun ⊢
    rw [tokensAt_literal hc (Ne.symm hne), ih hl hrun.2]
    rfl

section between
variable {after : Nat} {l : List Char}

theorem Between.tokens (h : Between pattern path st after l) :
    tokensAt pattern after = literals l ++ tokensAt pattern st.patternIndex := by
  have hrun := h.run
  rw [h.index] at hrun ⊢
  exact tokensAt_run h.literal hrun

/-- A star has just been noted, or has just taken one more. -/
theorem between_nil (after pathIndex : Nat) (star : Option (Nat × Bool)) :
    Between pattern path ⟨after, pathIndex, star, pathIndex⟩ after [] :=
  ⟨rfl, rfl, rfl, by simp, rfl⟩

theorem Between.push (h : Between pattern path st after l) {c : Char} (hc : c ≠ '*')
    (hpattern : pattern[st.patternIndex]? = some c) (hpath : path[st.pathIndex]? = some c) :
    Between pattern path
      { st with patternIndex := st.patternIndex + 1, pathIndex := st.pathIndex + 1 } after
      (l ++ [c]) where
  index := by simp only [h.index, List.length_append, List.length_singleton]; omega
  place := by simp only [h.place, List.length_append, List.length_singleton]; omega
  run := by rw [h.run, drop_of_getElem? hpattern, List.append_assoc]; rfl
  literal := by
    rw [List.mem_append, List.mem_singleton]
    exact not_or.mpr ⟨h.literal, Ne.symm hc⟩
  read := by
    show path.drop st.starPathIndex = _
    rw [h.read, drop_of_getElem? hpath, List.append_assoc]
    rfl

theorem Between.not_matches (h : Between pattern path st after l)
    (hmismatch : Mismatch pattern path st) :
    ¬ Matches (tokensAt pattern after) (path.drop st.starPathIndex) := by
  rw [h.tokens, h.read, matches_literals_append_self]
  exact not_matches_of_mismatch hmismatch

/-- At a mismatch the path does not go on as the literals do. -/
theorem Between.not_agrees (h : Between pattern path st after l)
    (hmismatch : Mismatch pattern path st) :
    ¬ Agrees (tokensAt pattern after) (path.drop st.starPathIndex) := by
  obtain ⟨hlt, hstar, hne⟩ := hmismatch
  have hpath := List.getElem?_eq_getElem hlt
  unfold Agrees
  rw [h.tokens, h.read, literalRun_append, List.prefix_append_right_inj,
    List.prefix_append_right_inj, drop_of_getElem? hpath]
  cases hpattern : pattern[st.patternIndex]? with
  | none =>
    -- the pattern has ended, and with it the literals
    have hnone : literalRun [] = [] := rfl
    rw [tokensAt_end hpattern, hnone, List.append_nil, List.append_nil]
    rintro (hahead | ⟨-, hne'⟩)
    · exact absurd (List.prefix_nil.mp hahead) (List.cons_ne_nil _ _)
    · exact hne' rfl
  | some c =>
    have hc : c ≠ '*' := fun heq => hstar (by rw [hpattern, heq])
    rw [tokensAt_literal hpattern hc]
    simp only [literalRun]
    rintro (hahead | ⟨hahead, -⟩)
    · obtain ⟨rfl, -⟩ := List.cons_prefix_cons.mp hahead
      exact hne (hpattern.trans hpath.symm)
    · obtain ⟨rfl, -⟩ := List.cons_prefix_cons.mp hahead
      exact hne (hpattern.trans hpath.symm)

theorem Between.agrees_of_end (h : Between pattern path st after l)
    (hend : path.length ≤ st.pathIndex) :
    Agrees (tokensAt pattern after) (path.drop st.starPathIndex) := by
  left
  rw [h.tokens, h.read, literalRun_append, List.drop_eq_nil_of_le hend, List.append_nil]
  exact List.prefix_append _ _

/-- The token at a star of the pattern. -/
theorem exists_star_token {i : Nat} (h : pattern[i]? = some '*') :
    ∃ token rest, tokensAt pattern i = token :: rest ∧ ∀ c, token ≠ .literal c := by
  by_cases hslash : AtGlobstarSlash pattern i
  · exact ⟨_, _, tokensAt_slash hslash, by simp⟩
  · have hcrosses : decide (pattern[i + 1]? = some '*') = true ↔ pattern[i + 1]? = some '*' := by
      simp
    refine ⟨_, _, tokensAt_star h hcrosses hslash, ?_⟩
    cases decide (pattern[i + 1]? = some '*') <;> simp [starToken]

/-- At a star the literals are all read. -/
theorem Between.run_of_star (h : Between pattern path st after l)
    (hstar : pattern[st.patternIndex]? = some '*') :
    literalRun (tokensAt pattern after) = l ∧
      tokensAt pattern after ≠ literals (literalRun (tokensAt pattern after)) := by
  obtain ⟨token, rest, htoken, hne⟩ := exists_star_token hstar
  have hrun : literalRun (token :: rest) = [] := by
    cases token with
    | literal c => exact absurd rfl (hne c)
    | _ => rfl
  have hl : literalRun (tokensAt pattern after) = l := by
    rw [h.tokens, htoken, literalRun_append, hrun, List.append_nil]
  refine ⟨hl, fun heq => ?_⟩
  rw [hl, h.tokens, htoken] at heq
  have hlength := congrArg List.length heq
  simp at hlength

theorem Between.ne_nil_of_slash (h : Between pattern path st after l)
    (hslash : pattern[after]? = some '/') (hstar : pattern[st.patternIndex]? = some '*') :
    l ≠ [] := by
  rintro rfl
  have hat : st.patternIndex = after := h.index
  rw [hat, hslash] at hstar
  cases hstar

theorem Between.agrees_of_star (h : Between pattern path st after l)
    (hstar : pattern[st.patternIndex]? = some '*') :
    Agrees (tokensAt pattern after) (path.drop st.starPathIndex) := by
  obtain ⟨hl, hne⟩ := h.run_of_star hstar
  exact .inr ⟨by rw [hl, h.read]; exact List.prefix_append _ _, hne⟩

/-- What the earlier star would take more is left to the later one. -/
theorem Between.exchange {crosses : Bool} (h : Between pattern path st after l)
    (hstart : startsSegment pattern after = false)
    (hstar : pattern[st.patternIndex]? = some '*')
    (hcrosses : crosses = true → pattern[st.patternIndex + 1]? = some '*') :
    Matches (starToken crosses :: tokensAt pattern after) (path.drop st.starPathIndex) ↔
      Matches (tokensAt pattern st.patternIndex) (path.drop st.pathIndex) := by
  rw [h.tokens, h.read]
  by_cases hslash : AtGlobstarSlash pattern st.patternIndex
  · rw [tokensAt_slash hslash]
    apply matches_exchange_slash
    -- the character before the stars is the last of the literals
    have hbefore := hslash.1
    cases l using List.reverseRecOn with
    | nil =>
      have hindex : st.patternIndex = after := h.index
      rw [hindex, hstart] at hbefore
      cases hbefore
    | append_singleton l c =>
      have hindex := h.index
      rw [List.length_append, List.length_singleton] at hindex
      have hc : pattern[st.patternIndex - 1]? = some c := by
        have hat := congrArg (·[l.length]?) h.run
        simp only [List.getElem?_drop] at hat
        rw [show st.patternIndex - 1 = after + l.length by omega, hat]
        simp
      rw [startsSegment, hc] at hbefore
      have hslashed : c = '/' := by
        simp only [Bool.or_eq_true, decide_eq_true_eq, Option.some.injEq] at hbefore
        exact hbefore.resolve_left (by omega)
      simp [hslashed]
  · have hboth : decide (pattern[st.patternIndex + 1]? = some '*') = true ↔
        pattern[st.patternIndex + 1]? = some '*' := by
      simp
    rw [tokensAt_star hstar hboth hslash]
    exact matches_exchange fun hcross => hboth.mpr (hcrosses hcross)

end between

/-- Where the loop is, with the tokens and the text that are still to be matched. -/
inductive Place (pattern path : List Char) (st : GlobState) :
    List GlobToken → List Char → Prop where
  /-- No star has been noted. -/
  | unstarred {l : List Char} (hstar : st.star = none) (hzero : st.starPathIndex = 0)
      (hbetween : Between pattern path st 0 l) :
      Place pattern path st (tokensAt pattern st.patternIndex) (path.drop st.pathIndex)
  /-- A star was noted, and has taken `u`. -/
  | starred {before : List GlobToken} {front u l : List Char} {after : Nat} {crosses : Bool}
      (hstar : st.star = some (after, crosses)) (hstart : startsSegment pattern after = false)
      (htokens : globTokens true pattern = before ++ starToken crosses :: tokensAt pattern after)
      (harrives : Arrives before path front)
      (hpath : front ++ u ++ path.drop st.starPathIndex = path)
      (hindex : front.length + u.length = st.starPathIndex) (htakes : Takes crosses u)
      (hslash : crosses = true → pattern[after]? = some '/' → u = [])
      (hbetween : Between pattern path st after l)
      (hfirst : tokensAt pattern after ≠ literals (literalRun (tokensAt pattern after)) →
        ∀ q, front.length ≤ q → q < front.length + u.length →
          ¬ literalRun (tokensAt pattern after) <+: path.drop q) :
      Place pattern path st (starToken crosses :: tokensAt pattern after)
        (path.drop st.starPathIndex)
  /-- The double star of a `**/` was noted, and no mismatch has come. -/
  | slashed {before : List GlobToken} {front l : List Char} {after : Nat}
      (hstar : st.star = some (after, true)) (hstart : startsSegment pattern after = false)
      (hslash : pattern[after]? = some '/')
      (htokens : globTokens true pattern =
        before ++ .starStarSlash :: tokensAt pattern (after + 1))
      (harrives : Arrives before path front)
      (hpath : front ++ path.drop st.starPathIndex = path)
      (hindex : front.length = st.starPathIndex) (hbetween : Between pattern path st after l) :
      Place pattern path st (.starStarSlash :: tokensAt pattern (after + 1))
        (path.drop st.starPathIndex)
  /-- The separator behind a double star was left out. -/
  | opened {l : List Char} {after : Nat} (hstar : st.star = some (after, true))
      (hplain : Plain (tokensAt pattern after)) (hbetween : Between pattern path st after l) :
      Place pattern path st (.starStar :: tokensAt pattern after) (path.drop st.starPathIndex)

/-- The tokens before a star that the loop comes to have their shortest front there. -/
structure Met (pattern path : List Char) (st : GlobState) (before : List GlobToken) : Prop where
  tokens : globTokens true pattern = before ++ tokensAt pattern st.patternIndex
  arrives : ∃ front, Arrives before path front ∧ front ++ path.drop st.pathIndex = path ∧
    front.length = st.pathIndex

theorem met_unstarred {l : List Char} (hzero : st.starPathIndex = 0)
    (hbetween : Between pattern path st 0 l) : Met pattern path st (literals l) := by
  have hread := hbetween.read
  rw [hzero, List.drop_zero] at hread
  refine ⟨?_, l, ⟨⟨_, hread.symm⟩, ?_, ?_⟩, hread.symm, ?_⟩
  · rw [← tokensAt_zero, hbetween.tokens]
  · rw [spelled_literals]
    exact matches_literals.mpr rfl
  · intro shorter _ hmatch
    rw [spelled_literals] at hmatch
    rw [matches_literals.mp hmatch]
  · rw [hbetween.place, hzero, Nat.zero_add]

theorem met_starred {before : List GlobToken} {front u l : List Char} {after : Nat}
    {crosses : Bool}
    (htokens : globTokens true pattern = before ++ starToken crosses :: tokensAt pattern after)
    (harrives : Arrives before path front)
    (hpath : front ++ u ++ path.drop st.starPathIndex = path)
    (hindex : front.length + u.length = st.starPathIndex) (htakes : Takes crosses u)
    (hbetween : Between pattern path st after l)
    (hfirst : ∀ q, front.length ≤ q → q < front.length + u.length → ¬ l <+: path.drop q) :
    Met pattern path st (before ++ starToken crosses :: literals l) := by
  have hwhole : front ++ u ++ l ++ path.drop st.pathIndex = path := by
    rw [List.append_assoc (front ++ u), ← hbetween.read, hpath]
  refine ⟨?_, front ++ u ++ l, harrives.next ?_ ⟨_, hwhole⟩ htakes hfirst, hwhole, ?_⟩
  · rw [htokens, hbetween.tokens]
    simp
  · rw [spelled_append, spelled_starToken, spelled_literals]
  · rw [hbetween.place, ← hindex]
    simp only [List.length_append]

theorem met_slashed {before : List GlobToken} {front l : List Char} {after : Nat}
    (hslash : pattern[after]? = some '/')
    (htokens : globTokens true pattern =
      before ++ .starStarSlash :: tokensAt pattern (after + 1))
    (harrives : Arrives before path front) (hpath : front ++ path.drop st.starPathIndex = path)
    (hindex : front.length = st.starPathIndex) (hbetween : Between pattern path st after l)
    (hne : l ≠ []) :
    ∃ l', Met pattern path st (before ++ .starStarSlash :: literals l') := by
  have hwhole : front ++ l ++ path.drop st.pathIndex = path := by
    rw [List.append_assoc, ← hbetween.read, hpath]
  obtain ⟨c, l', rfl⟩ := List.exists_cons_of_ne_nil hne
  have hrun := hbetween.tokens
  rw [tokensAt_literal hslash (by decide)] at hrun
  obtain ⟨hc, htail⟩ := List.cons.inj hrun
  obtain rfl := GlobToken.literal.inj hc
  refine ⟨l', ?_, front ++ '/' :: l', ?_, hwhole, ?_⟩
  · rw [htokens, htail]
    simp [literals]
  · have hspelled : spelled (before ++ .starStarSlash :: literals l') =
        spelled before ++ starToken true :: literals ('/' :: l') := by
      rw [spelled_append]
      exact congrArg (fun rest => spelled before ++ .starStar :: .literal '/' :: rest)
        (spelled_literals l')
    have hnext :
        Arrives (before ++ .starStarSlash :: literals l') path (front ++ [] ++ '/' :: l') :=
      harrives.next hspelled ⟨path.drop st.pathIndex, by rw [List.append_nil]; exact hwhole⟩
        (.inl rfl)
        fun q hge hlt => absurd hlt (Nat.not_lt.mpr hge)
    rwa [List.append_nil] at hnext
  · rw [hbetween.place, ← hindex, List.length_append]

/-- A star is noted where the tokens before it have their shortest front. -/
theorem Met.note {before : List GlobToken} (h : Met pattern path st before)
    (hstar : pattern[st.patternIndex]? = some '*') {crosses : Bool} {after : Nat}
    (hcrosses : crosses = true ↔ pattern[st.patternIndex + 1]? = some '*')
    (hafter : after = st.patternIndex + (if crosses then 2 else 1)) :
    Place pattern path ⟨after, st.pathIndex, some (after, crosses), st.pathIndex⟩
      (tokensAt pattern st.patternIndex) (path.drop st.pathIndex) := by
  obtain ⟨htokens, front, harrives, hpath, hindex⟩ := h
  have hstart : startsSegment pattern after = false := by
    cases crosses with
    | false =>
      rw [hafter, if_neg (by decide)]
      simp [startsSegment, hstar]
    | true =>
      rw [hafter, if_pos rfl]
      simp [startsSegment, hcrosses.mp rfl]
  by_cases hslash : AtGlobstarSlash pattern st.patternIndex
  · obtain rfl : crosses = true := hcrosses.mpr hslash.2.2.1
    rw [if_pos rfl] at hafter
    subst hafter
    rw [tokensAt_slash hslash] at htokens ⊢
    exact .slashed rfl hstart hslash.2.2.2 htokens harrives hpath
      hindex (between_nil ..)
  · rw [tokensAt_star hstar hcrosses hslash, ← hafter] at htokens ⊢
    refine .starred (u := []) rfl hstart htokens harrives ?_ hindex (.inr (by simp))
      (fun _ _ => rfl) (between_nil ..) ?_
    · rw [List.append_nil]
      exact hpath
    · intro _ q hge hlt
      simp at hlt
      omega

/-! ## Section 3: What a round keeps -/

section rounds
variable {after : Nat} {l : List Char} {crosses : Bool}

/-- A star that takes the next character, where what is behind it does not match. -/
theorem Between.advance (h : Between pattern path st after l)
    (hmismatch : Mismatch pattern path st) {c : Char} (hc : path[st.starPathIndex]? = some c)
    (htakes : Takes crosses [c]) :
    Matches (starToken crosses :: tokensAt pattern after) (path.drop (st.starPathIndex + 1)) ↔
      Matches (starToken crosses :: tokensAt pattern after) (path.drop st.starPathIndex) := by
  have hnothing := h.not_matches hmismatch
  rw [drop_of_getElem? hc] at hnothing ⊢
  rw [matches_starToken_cons]
  exact ⟨fun hmatch => .inr ⟨htakes, hmatch⟩, fun hmatch => (hmatch.resolve_left hnothing).2⟩

theorem takes_of_go {c : Char} (hc : path[st.starPathIndex]? = some c)
    (hgo : crosses = true ∨ path[st.starPathIndex]? ≠ some '/') : Takes crosses [c] := by
  refine hgo.imp_right fun hne hmem => hne ?_
  rw [hc, List.mem_singleton.mp hmem]

/-- A star that can take no more does not match. -/
theorem Between.stuck (h : Between pattern path st after l) (hmismatch : Mismatch pattern path st)
    (hstuck : path.length ≤ st.starPathIndex ∨
      crosses = false ∧ path[st.starPathIndex]? = some '/') :
    ¬ Matches (starToken crosses :: tokensAt pattern after) (path.drop st.starPathIndex) := by
  rcases hstuck with hend | ⟨rfl, hslash⟩
  · have hplace := h.place
    have hlt := hmismatch.1
    omega
  · have hnothing := h.not_matches hmismatch
    rw [drop_of_getElem? hslash] at hnothing ⊢
    rw [matches_starToken_cons]
    rintro (hmatch | ⟨htakes, -⟩)
    · exact hnothing hmatch
    · simp [Takes] at htakes

theorem Between.matches_at_end (h : Between pattern path st after l)
    (hend : path.length ≤ st.pathIndex) :
    Matches (starToken crosses :: tokensAt pattern after) (path.drop st.starPathIndex) ↔
      Matches (tokensAt pattern st.patternIndex) [] := by
  rw [h.tokens, h.read, List.drop_eq_nil_of_le hend, List.append_nil]
  exact matches_star_literals

theorem Between.matches_starStar_at_end (h : Between pattern path st after l)
    (hend : path.length ≤ st.pathIndex) :
    Matches (.starStar :: tokensAt pattern after) (path.drop st.starPathIndex) ↔
      Matches (tokensAt pattern st.patternIndex) [] :=
  @Between.matches_at_end _ _ _ _ _ true h hend

/-- The separator behind a double star is left out, and what is to be matched stays the same. -/
theorem opened_of_zero {before : List GlobToken} {token : GlobToken} {behind : List GlobToken}
    (hsound : SoundAt before token behind (path.drop st.starPathIndex))
    (htail : SlashTail token behind (tokensAt pattern (after + 1)))
    (hslash : pattern[after]? = some '/') (hbetween : Between pattern path st after l)
    (hmismatch : Mismatch pattern path st) :
    Place pattern path { st with patternIndex := after + 1, star := some (after + 1, true) }
        (.starStar :: tokensAt pattern (after + 1)) (path.drop st.starPathIndex) ∧
      (Matches (.starStar :: tokensAt pattern (after + 1)) (path.drop st.starPathIndex) ↔
        Matches (token :: behind) (path.drop st.starPathIndex)) := by
  have hdisagrees := hbetween.not_agrees hmismatch
  have htokens := tokensAt_literal hslash (by decide)
  rw [htokens] at hdisagrees
  obtain ⟨hhead, hplain, hback⟩ := hsound.opened _ htail hdisagrees
  -- the path does not start with the separator, so nothing has been read
  obtain rfl : l = [] := by
    cases l with
    | nil => rfl
    | cons c l =>
      have hrun := hbetween.tokens
      rw [htokens] at hrun
      obtain ⟨hc, -⟩ := List.cons.inj hrun
      rw [hbetween.read, ← GlobToken.literal.inj hc] at hhead
      simp at hhead
  have hplace := hbetween.place
  rw [List.length_nil, Nat.add_zero] at hplace
  have hnil : Between pattern path
      { st with patternIndex := after + 1, star := some (after + 1, true) } (after + 1) [] :=
    ⟨rfl, hplace, rfl, by simp, by rw [List.nil_append, hplace]⟩
  refine ⟨.opened rfl hplain hnil, hback, fun hmatch => ?_⟩
  · rcases htail with ⟨rfl, rfl⟩ | ⟨rfl, rfl⟩
    · rcases matches_starStarSlash.mp hmatch with hrest | hrest
      · exact ⟨[], _, rfl, hrest⟩
      · exact matches_of_matches_slash hrest
    · exact matches_of_matches_slash hmatch

/-- Behind a separator that was left out there are only double stars. -/
theorem Plain.next (h : Plain (tokensAt pattern after)) (hbetween : Between pattern path st after l)
    (hstar : pattern[st.patternIndex]? = some '*') :
    pattern[st.patternIndex + 1]? = some '*' ∧
      tokensAt pattern st.patternIndex = .starStar :: tokensAt pattern (st.patternIndex + 2) ∧
      Plain (tokensAt pattern (st.patternIndex + 2)) := by
  have htokens := hbetween.tokens
  have hmem : ∀ token ∈ tokensAt pattern st.patternIndex, token ∈ tokensAt pattern after := by
    intro token htoken
    rw [htokens]
    exact List.mem_append_right _ htoken
  have hslash : ¬ AtGlobstarSlash pattern st.patternIndex := by
    intro hat
    exact h.slash (hmem _ (by rw [tokensAt_slash hat]; exact List.mem_cons_self))
  have hdouble : pattern[st.patternIndex + 1]? = some '*' := by
    by_contra hsingle
    have htoken : tokensAt pattern st.patternIndex =
        starToken false :: tokensAt pattern (st.patternIndex + 1) :=
      tokensAt_star hstar (by simpa using hsingle) hslash
    exact h.star (hmem _ (by rw [htoken]; exact List.mem_cons_self))
  have htoken : tokensAt pattern st.patternIndex =
      .starStar :: tokensAt pattern (st.patternIndex + 2) :=
    @tokensAt_star _ _ true hstar (by simpa using hdouble) hslash
  rw [htoken] at htokens hmem
  refine ⟨hdouble, htoken, ⟨?_, ?_, ?_, ?_⟩⟩
  · intro hhead
    obtain ⟨tail, htail⟩ := List.head?_eq_some_iff.mp hhead
    rw [htail] at htokens
    exact h.behind ⟨literals l, tail, by rw [htokens]; simp⟩
  · exact fun hin => h.star (hmem _ (List.mem_cons_of_mem _ hin))
  · exact fun hin => h.slash (hmem _ (List.mem_cons_of_mem _ hin))
  · intro hpair
    refine h.behind (hpair.trans ?_)
    rw [htokens]
    exact ⟨literals l ++ [.starStar], [], by simp⟩

end rounds

/-- A literal is read in the pattern and in the path. -/
theorem Place.literal {tokens : List GlobToken} {text : List Char}
    (h : Place pattern path st tokens text) {c : Char} (hc : c ≠ '*')
    (hpattern : pattern[st.patternIndex]? = some c) (hpath : path[st.pathIndex]? = some c) :
    ∃ tokens' text', Place pattern path
        { st with patternIndex := st.patternIndex + 1, pathIndex := st.pathIndex + 1 }
        tokens' text' ∧ (Matches tokens' text' ↔ Matches tokens text) := by
  cases h with
  | unstarred hnone hzero hbetween =>
    -- without a star the literal is no longer to be matched
    refine ⟨_, _, .unstarred hnone hzero (hbetween.push hc hpattern hpath), ?_⟩
    rw [tokensAt_literal hpattern hc, drop_of_getElem? hpath]
    constructor
    · exact fun hrest => ⟨_, rfl, hrest⟩
    · rintro ⟨rest, heq, hrest⟩
      obtain ⟨-, rfl⟩ := List.cons.inj heq
      exact hrest
  | starred hsome hstart htokens harrives hwhole hindex htakes hslash hbetween hfirst =>
    exact ⟨_, _, .starred hsome hstart htokens harrives hwhole hindex htakes hslash
      (hbetween.push hc hpattern hpath) hfirst, Iff.rfl⟩
  | slashed hsome hstart hslash htokens harrives hwhole hindex hbetween =>
    exact ⟨_, _, .slashed hsome hstart hslash htokens harrives hwhole hindex
      (hbetween.push hc hpattern hpath), Iff.rfl⟩
  | opened hsome hplain hbetween =>
    exact ⟨_, _, .opened hsome hplain (hbetween.push hc hpattern hpath), Iff.rfl⟩

/-- The noted star takes one more character. -/
theorem Place.advance {tokens : List GlobToken} {text : List Char}
    (h : Place pattern path st tokens text) (hmismatch : Mismatch pattern path st) {after : Nat}
    {crosses : Bool} (hnoted : st.star = some (after, crosses))
    (hplain : ¬ (crosses = true ∧ pattern[after]? = some '/'))
    (hlt : st.starPathIndex < path.length)
    (hgo : crosses = true ∨ path[st.starPathIndex]? ≠ some '/') :
    ∃ tokens' text', Place pattern path
        ⟨after, st.starPathIndex + 1, st.star, st.starPathIndex + 1⟩ tokens' text' ∧
      (Matches tokens' text' ↔ Matches tokens text) := by
  have hc := List.getElem?_eq_getElem hlt
  cases h with
  | unstarred hnone => rw [hnone] at hnoted; cases hnoted
  | @starred before front u l after' crosses' hsome hstart htokens harrives hpath hindex htakes
      hslash hbetween hfirst =>
    obtain ⟨rfl, rfl⟩ : after' = after ∧ crosses' = crosses := by simpa [hsome] using hnoted
    have htakes' := takes_of_go hc hgo
    refine ⟨_, _, .starred (u := u ++ [path[st.starPathIndex]]) hsome hstart htokens harrives
      ?_ ?_ ?_ (fun hcross hslash' => absurd ⟨hcross, hslash'⟩ hplain) (between_nil ..) ?_,
      hbetween.advance hmismatch hc htakes'⟩
    · rw [drop_of_getElem? hc] at hpath
      simpa using hpath
    · rw [List.length_append, List.length_singleton, ← Nat.add_assoc, hindex]
    · exact htakes.elim .inl fun hu => htakes'.imp_right fun hchar => by simp_all
    · -- the literals behind the star are not where the mismatch came
      intro hfollowed q hge hq hahead
      rw [List.length_append, List.length_singleton, ← Nat.add_assoc] at hq
      by_cases hlast : q = st.starPathIndex
      · subst hlast
        exact hbetween.not_agrees hmismatch (.inr ⟨hahead, hfollowed⟩)
      · exact hfirst hfollowed q hge (by omega) hahead
  | slashed hsome _ hslash =>
    obtain ⟨rfl, rfl⟩ : _ = after ∧ true = crosses := by simpa [hsome] using hnoted
    exact absurd ⟨rfl, hslash⟩ hplain
  | opened hsome hdouble hbetween =>
    obtain ⟨rfl, rfl⟩ : _ = after ∧ true = crosses := by simpa [hsome] using hnoted
    exact ⟨_, _, .opened hsome hdouble (between_nil ..),
      @Between.advance _ _ _ _ _ true hbetween hmismatch _ hc (.inl rfl)⟩

variable (hright : RightReading pattern path)
include hright

/-- What is known of a star that the loop comes to. -/
theorem Met.sound {before : List GlobToken} (h : Met pattern path st before) {token : GlobToken}
    {after : List GlobToken} (htoken : tokensAt pattern st.patternIndex = token :: after) :
    SoundAt before token after (path.drop st.pathIndex) := by
  obtain ⟨htokens, front, harrives, hpath, -⟩ := h
  exact hright before token after front _ (by rw [htokens, htoken]) hpath.symm harrives

/-- The next star is a double one if the last one was. -/
theorem Met.crosses {before : List GlobToken} (h : Met pattern path st before)
    (hends : EndsCrossing before) (hlt : st.pathIndex < path.length)
    (hstar : pattern[st.patternIndex]? = some '*') :
    pattern[st.patternIndex + 1]? = some '*' := by
  by_contra hsingle
  have hslash : ¬ AtGlobstarSlash pattern st.patternIndex := fun hat => hsingle hat.2.2.1
  have htoken : tokensAt pattern st.patternIndex =
      starToken false :: tokensAt pattern (st.patternIndex + 1) :=
    tokensAt_star hstar (by simpa using hsingle) hslash
  refine (h.sound hright htoken).single rfl ?_ hends
  intro hnil
  exact absurd (List.drop_eq_nil_iff.mp hnil) (Nat.not_le.mpr hlt)

/-- Where the path ends, what is left of the pattern matches if it is stars only. -/
theorem Met.skipStars_iff {before : List GlobToken} (h : Met pattern path st before)
    (hend : path.length ≤ st.pathIndex) :
    skipStars (pattern.drop st.patternIndex) = [] ↔
      Matches (tokensAt pattern st.patternIndex) [] := by
  by_cases hslash : AtGlobstarSlash pattern st.patternIndex
  · have htoken := tokensAt_slash hslash
    have hsound := h.sound hright htoken
    rw [List.drop_eq_nil_of_le hend] at hsound
    refine iff_of_false (skipStars_slash hslash) fun hmatch => ?_
    rw [htoken] at hmatch
    have hspelled := hsound.straight _ (.inl ⟨rfl, rfl⟩) (.inl List.nil_prefix) hmatch
    obtain ⟨u, rest, heq, rest', rfl, -⟩ := hspelled
    simp at heq
  · exact Serverless.skipStars_iff hslash

/-- A star is noted in place of the one before it. -/
theorem Place.star {tokens : List GlobToken} {text : List Char}
    (h : Place pattern path st tokens text) (hlt : st.pathIndex < path.length)
    (hpattern : pattern[st.patternIndex]? = some '*') {crosses : Bool} {after : Nat}
    (hcrosses : crosses = true ↔ pattern[st.patternIndex + 1]? = some '*')
    (hafter : after = st.patternIndex + (if crosses then 2 else 1)) :
    ∃ tokens' text', Place pattern path ⟨after, st.pathIndex, some (after, crosses), st.pathIndex⟩
        tokens' text' ∧ (Matches tokens' text' ↔ Matches tokens text) := by
  cases h with
  | unstarred hnone hzero hbetween =>
    exact ⟨_, _, (met_unstarred hzero hbetween).note hpattern hcrosses hafter, Iff.rfl⟩
  | @starred before front u l after' crosses' hsome hstart htokens harrives hpath hindex htakes
      hslash hbetween hfirst =>
    -- the star before it takes the least it can, or is a double one as this is
    obtain ⟨hrun, hfollowed⟩ := hbetween.run_of_star hpattern
    have hfound := hfirst hfollowed
    rw [hrun] at hfound
    have hmet := met_starred htokens harrives hpath hindex htakes hbetween hfound
    refine ⟨_, _, hmet.note hpattern hcrosses hafter, ?_⟩
    refine (hbetween.exchange hstart hpattern fun hcross => ?_).symm
    subst hcross
    exact hmet.crosses hright ⟨before, .starStar, l, rfl, .inl rfl⟩ hlt hpattern
  | @slashed before front l after' hsome hstart hslash htokens harrives hpath hindex hbetween =>
    obtain ⟨l', hmet⟩ := met_slashed hslash htokens harrives hpath hindex hbetween
      (hbetween.ne_nil_of_slash hslash hpattern)
    refine ⟨_, _, hmet.note hpattern hcrosses hafter, ?_⟩
    have hcross := hmet.crosses hright ⟨before, .starStarSlash, l', rfl, .inr rfl⟩ hlt hpattern
    have hexchange : Matches (.starStar :: tokensAt pattern after') (path.drop st.starPathIndex) ↔
        Matches (tokensAt pattern st.patternIndex) (path.drop st.pathIndex) :=
      @Between.exchange _ _ _ _ _ true hbetween hstart hpattern fun _ => hcross
    rw [← hexchange, tokensAt_literal hslash (by decide)]
    have hagrees := hbetween.agrees_of_star hpattern
    rw [tokensAt_literal hslash (by decide)] at hagrees
    have hsound := hright before .starStarSlash _ front _ htokens hpath.symm harrives
    exact ⟨fun hmatch => matches_starStarSlash.mpr (.inr hmatch),
      hsound.straight _ (.inl ⟨rfl, rfl⟩) hagrees⟩
  | opened hsome hplain hbetween =>
    obtain ⟨hdouble, htoken, hnext⟩ := hplain.next hbetween hpattern
    obtain rfl : crosses = true := hcrosses.mpr hdouble
    rw [if_pos rfl] at hafter
    subst hafter
    refine ⟨_, _, .opened rfl hnext (between_nil ..), ?_⟩
    rw [hbetween.tokens, htoken, hbetween.read]
    exact (@matches_exchange true true _ _ _ fun _ => rfl).symm

/-- The separator behind the noted double star is left out. -/
theorem Place.zero {tokens : List GlobToken} {text : List Char}
    (h : Place pattern path st tokens text) (hmismatch : Mismatch pattern path st) {after : Nat}
    (hnoted : st.star = some (after, true)) (hseparator : pattern[after]? = some '/') :
    ∃ tokens' text', Place pattern path
        { st with patternIndex := after + 1, star := some (after + 1, true) } tokens' text' ∧
      (Matches tokens' text' ↔ Matches tokens text) := by
  cases h with
  | unstarred hnone => rw [hnone] at hnoted; cases hnoted
  | @starred before front u l after' crosses hsome hstart htokens harrives hpath hindex htakes
      hslash hbetween hfirst =>
    obtain ⟨rfl, rfl⟩ : after' = after ∧ crosses = true := by simpa [hsome] using hnoted
    obtain rfl := hslash rfl hseparator
    rw [List.append_nil] at hpath
    have hsound := hright before .starStar _ front _ htokens hpath.symm harrives
    have htail : SlashTail .starStar (tokensAt pattern after') (tokensAt pattern (after' + 1)) :=
      .inr ⟨rfl, tokensAt_literal hseparator (by decide)⟩
    exact ⟨_, _, opened_of_zero hsound htail hseparator hbetween hmismatch⟩
  | @slashed before front l after' hsome hstart hslash htokens harrives hpath hindex hbetween =>
    obtain rfl : after' = after := by simpa [hsome] using hnoted
    have hsound := hright before .starStarSlash _ front _ htokens hpath.symm harrives
    exact ⟨_, _, opened_of_zero hsound (.inl ⟨rfl, rfl⟩) hslash hbetween hmismatch⟩
  | opened hsome hplain hbetween =>
    obtain rfl : _ = after := by simpa [hsome] using hnoted
    have hhead := hplain.head
    rw [tokensAt_literal hseparator (by decide)] at hhead
    exact absurd rfl hhead

/-- **A round keeps what is still to be matched.** -/
theorem Place.step {tokens : List GlobToken} {text : List Char} {st' : GlobState}
    (h : Place pattern path st tokens text) (hstep : globStep pattern path st = .inl st') :
    ∃ tokens' text', Place pattern path st' tokens' text' ∧
      (Matches tokens' text' ↔ Matches tokens text) := by
  have hround := round_globStep pattern path st
  rw [hstep] at hround
  cases hround with
  | literal hc hpattern hpath => exact h.literal hc hpattern hpath
  | star hlt hpattern hcrosses hafter => exact h.star hright hlt hpattern hcrosses hafter
  | zero hmismatch hnoted hslash => exact h.zero hright hmismatch hnoted hslash
  | advance hmismatch hnoted hplain hlt hgo => exact h.advance hmismatch hnoted hplain hlt hgo

/-- The answer of a round is right. -/
theorem Place.answer {tokens : List GlobToken} {text : List Char} {answer : Bool}
    (h : Place pattern path st tokens text) (hstep : globStep pattern path st = .inr answer) :
    answer = true ↔ Matches tokens text := by
  have hround := round_globStep pattern path st
  rw [hstep] at hround
  cases h with
  | @unstarred l hnone hzero hbetween =>
    cases hround with
    | stuck _ hnoted => rw [hnone] at hnoted; cases hnoted
    | noStar hmismatch => exact iff_of_false (by decide) (not_matches_of_mismatch hmismatch)
    | done hend =>
      rw [decide_eq_true_eq, List.drop_eq_nil_of_le hend]
      exact (met_unstarred hzero hbetween).skipStars_iff hright hend
  | @starred before front u l after crosses hsome hstart htokens harrives hpath hindex htakes hslash
      hbetween hfirst =>
    cases hround with
    | @stuck after' crosses' hmismatch hnoted hplain hstuck =>
      obtain ⟨rfl, rfl⟩ : after = after' ∧ crosses = crosses' := by simpa [hsome] using hnoted
      exact iff_of_false (by decide) (hbetween.stuck hmismatch hstuck)
    | noStar _ hnoted => rw [hsome] at hnoted; cases hnoted
    | done hend =>
      -- the star takes nothing, and what is behind the literals has to match nothing
      rw [decide_eq_true_eq, hbetween.matches_at_end hend]
      by_cases hpattern : pattern[st.patternIndex]? = some '*'
      · obtain ⟨hrun, hfollowed⟩ := hbetween.run_of_star hpattern
        have hfound := hfirst hfollowed
        rw [hrun] at hfound
        have hmet := met_starred htokens harrives hpath hindex htakes hbetween hfound
        exact hmet.skipStars_iff hright hend
      · exact Serverless.skipStars_iff fun hat => hpattern hat.2.1
  | @slashed before front l after hsome hstart hslash htokens harrives hpath hindex hbetween =>
    cases hround with
    | @stuck after' crosses' hmismatch hnoted hplain hstuck =>
      obtain ⟨rfl, rfl⟩ : after = after' ∧ true = crosses' := by simpa [hsome] using hnoted
      exact absurd ⟨rfl, hslash⟩ hplain
    | noStar _ hnoted => rw [hsome] at hnoted; cases hnoted
    | done hend =>
      -- the path agrees with the separator and the literals behind it
      have hstraight := hbetween.agrees_of_end hend
      rw [tokensAt_literal hslash (by decide)] at hstraight
      have hsound := hright before .starStarSlash _ front _ htokens hpath.symm harrives
      have htaken : Matches (.starStar :: tokensAt pattern after) (path.drop st.starPathIndex) ↔
          Matches (.starStarSlash :: tokensAt pattern (after + 1))
            (path.drop st.starPathIndex) := by
        rw [tokensAt_literal hslash (by decide)]
        exact ⟨fun hmatch => matches_starStarSlash.mpr (.inr hmatch),
          hsound.straight _ (.inl ⟨rfl, rfl⟩) hstraight⟩
      rw [decide_eq_true_eq, ← htaken, hbetween.matches_starStar_at_end hend]
      by_cases hpattern : pattern[st.patternIndex]? = some '*'
      · obtain ⟨l', hmet⟩ := met_slashed hslash htokens harrives hpath hindex hbetween
          (hbetween.ne_nil_of_slash hslash hpattern)
        exact hmet.skipStars_iff hright hend
      · exact Serverless.skipStars_iff fun hat => hpattern hat.2.1
  | @opened l after hsome hplain hbetween =>
    cases hround with
    | @stuck after' crosses' hmismatch hnoted hplain' hstuck =>
      obtain ⟨rfl, rfl⟩ : after = after' ∧ true = crosses' := by simpa [hsome] using hnoted
      exact iff_of_false (by decide) (hbetween.stuck hmismatch hstuck)
    | noStar _ hnoted => rw [hsome] at hnoted; cases hnoted
    | done hend =>
      rw [decide_eq_true_eq, hbetween.matches_starStar_at_end hend]
      refine Serverless.skipStars_iff fun hat => hplain.slash ?_
      rw [hbetween.tokens, tokensAt_slash hat]
      simp

/-- By induction on the rounds, with what is still to be matched. -/
theorem Place.loop {tokens : List GlobToken} {text : List Char} {answer : Bool} {fuel : Nat}
    (h : Place pattern path st tokens text) (hloop : globLoop pattern path fuel st = some answer) :
    answer = true ↔ Matches tokens text := by
  induction fuel generalizing st tokens text with
  | zero => cases hloop
  | succ fuel ih =>
    rw [globLoop] at hloop
    split at hloop
    · next st' hstep =>
      obtain ⟨tokens', text', hplace, hsame⟩ := h.step hright hstep
      rw [ih hplace hloop, hsame]
    · next answer' hstep =>
      cases hloop
      exact h.answer hright hstep

end places

/-! ## Section 4: The answer -/

/-- **Where the stars do no harm, the answer is what the pattern means.** -/
theorem globMatch_iff (pattern path : List Char) (h : RightReading pattern path) :
    globMatch pattern path = true ↔ Matches (globTokens true pattern) path := by
  have hstart : Place pattern path .start (tokensAt pattern 0) (path.drop 0) :=
    .unstarred rfl rfl (between_nil 0 0 none)
  obtain ⟨answer, hanswer⟩ := Option.isSome_iff_exists.mp (globLoop_isSome pattern path)
  have hright := hstart.loop h hanswer
  rw [tokensAt_zero, List.drop_zero] at hright
  rw [globMatch, hanswer, Option.getD_some, hright]

/-- A literal is no star. -/
theorem soundAt_literal (before : List GlobToken) (c : Char) (after : List GlobToken)
    (rest : List Char) : SoundAt before (.literal c) after rest where
  single := by simp
  straight := by simp [SlashTail]
  opened := by simp [SlashTail]

/-- With one `**/` and literals around it there is one place to look at. -/
theorem rightReading_of_one {pattern path l : List Char} {tail : List GlobToken}
    (htokens : globTokens true pattern = literals l ++ .starStarSlash :: tail)
    (htail : ∀ token ∈ tail, ∃ c, token = .literal c)
    (hsound : ∀ rest, path = l ++ rest → SoundAt (literals l) .starStarSlash tail rest) :
    RightReading pattern path := by
  intro before token after front rest hsplit hpath harrives
  rw [htokens] at hsplit
  -- the token is a literal before the star, the star or a literal behind it
  rcases List.append_eq_append_iff.mp hsplit with ⟨more, rfl, hmore⟩ | ⟨more, hmore, hrest⟩
  · cases more with
    | nil =>
      obtain ⟨rfl, rfl⟩ := List.cons.inj hmore
      have hread := harrives.read
      rw [List.append_nil, spelled_literals, matches_literals] at hread
      subst hread
      simpa using hsound rest hpath
    | cons _ more =>
      obtain ⟨-, rfl⟩ := List.cons.inj hmore
      obtain ⟨c, rfl⟩ := htail token (by simp)
      exact soundAt_literal ..
  · cases more with
    | nil =>
      obtain ⟨rfl, rfl⟩ := List.cons.inj hrest
      rw [List.append_nil] at hmore
      subst hmore
      have hread := harrives.read
      rw [spelled_literals, matches_literals] at hread
      subst hread
      exact hsound rest hpath
    | cons _ more =>
      obtain ⟨rfl, -⟩ := List.cons.inj hrest
      obtain ⟨c, -, rfl⟩ : ∃ c ∈ l, GlobToken.literal c = token := by
        rw [← List.mem_map]
        show token ∈ literals l
        rw [hmore]
        simp
      exact soundAt_literal ..

/-- A double star takes no segment of one path, and one segment of the other. -/
theorem segments_matched :
    (globMatch "**/a".toList "/a".toList = true ∧
      Matches (globTokens true "**/a".toList) "/a".toList) ∧
    (globMatch "/a/**/c".toList "/a/b/c".toList = true ∧
      Matches (globTokens true "/a/**/c".toList) "/a/b/c".toList) := by
  have hfirst : globMatch "**/a".toList "/a".toList = true := by decide
  have hsecond : globMatch "/a/**/c".toList "/a/b/c".toList = true := by decide
  refine ⟨⟨hfirst, (globMatch_iff _ _ ?_).mp hfirst⟩,
    hsecond, (globMatch_iff _ _ ?_).mp hsecond⟩
  · refine @rightReading_of_one _ _ [] [.literal 'a'] (by decide) (by simp) fun rest hpath => ?_
    obtain rfl : "/a".toList = rest := hpath
    refine ⟨by simp, ?_, ?_⟩
    · rintro tail (⟨-, rfl⟩ | ⟨h, -⟩) - -
      · exact ⟨[], "/a".toList, rfl, "a".toList, rfl, [], rfl, rfl⟩
      · cases h
    · rintro tail (⟨-, rfl⟩ | ⟨h, -⟩) hdisagrees
      · exact absurd (.inl (by decide)) hdisagrees
      · cases h
  · refine @rightReading_of_one _ _ "/a/".toList [.literal 'c'] (by decide) (by simp)
      fun rest hpath => ?_
    obtain rfl : "b/c".toList = rest := @List.append_cancel_left _ "/a/".toList _ _ hpath
    have hmatch : Matches [.starStarSlash, .literal 'c'] "b/c".toList :=
      ⟨"b/".toList, "c".toList, rfl, .inr rfl, [], rfl, rfl⟩
    refine ⟨by simp, ?_, ?_⟩
    · rintro tail (⟨-, rfl⟩ | ⟨h, -⟩) hagrees
      · exact absurd hagrees (by unfold Agrees; decide)
      · cases h
    · rintro tail (⟨-, rfl⟩ | ⟨h, -⟩) -
      · exact ⟨by decide, ⟨by decide, by decide, by decide, by decide⟩, fun _ => hmatch⟩
      · cases h

/-- The single star gives up the double one before it, which would have to take the separator. -/
theorem double_star_given_up :
    globMatch "**a*b".toList "a/ab".toList = false ∧
      Matches (globTokens true "**a*b".toList) "a/ab".toList := by
  refine ⟨by decide, "a/".toList, "ab".toList, by decide, "b".toList, by decide, [], "b".toList,
    by decide, by decide, [], by decide, ?_⟩
  rfl

end Synvoid.Serverless
