import Mathlib.Data.List.Infix

/-! # What glob patterns mean

    A pattern is read as a list of tokens, and a text matches if it splits into
    pieces that match the tokens in order (`Matches`).

    A matcher that backtracks to the last star only gives up the ones before it.
    That is sound because a star that has matched can be left where it is: what
    it takes more, the later star takes instead (`matches_exchange`). The
    later star has to be able to: a star that stops at separators cannot take
    what one that crosses them took.
-/

namespace Synvoid.Framework

inductive GlobToken where
  | literal (c : Char)
  | star
  | starStar
  | starStarSlash
  deriving DecidableEq, Repr

/-- The tokens of a pattern. The flag says whether it starts at the beginning
    or behind a separator, where `**/` is one token. -/
def globTokens : Bool → List Char → List GlobToken
  | true, '*' :: '*' :: '/' :: rest => .starStarSlash :: globTokens true rest
  | _, '*' :: '*' :: rest => .starStar :: globTokens false rest
  | _, '*' :: rest => .star :: globTokens false rest
  | _, c :: rest => .literal c :: globTokens (c == '/') rest
  | _, [] => []

/-- The text splits into pieces that match the tokens. -/
def Matches : List GlobToken → List Char → Prop
  | [], s => s = []
  | .literal c :: tokens, s => ∃ rest, s = c :: rest ∧ Matches tokens rest
  | .star :: tokens, s => ∃ u rest, s = u ++ rest ∧ '/' ∉ u ∧ Matches tokens rest
  | .starStar :: tokens, s => ∃ u rest, s = u ++ rest ∧ Matches tokens rest
  | .starStarSlash :: tokens, s =>
    ∃ u rest, s = u ++ rest ∧ (u = [] ∨ u.getLast? = some '/') ∧ Matches tokens rest

theorem matches_append {tokens tokens' : List GlobToken} {s : List Char} :
    Matches (tokens ++ tokens') s ↔ ∃ u v, s = u ++ v ∧ Matches tokens u ∧ Matches tokens' v := by
  induction tokens generalizing s with
  | nil => simp [Matches]
  | cons token tokens ih =>
    constructor
    · intro h
      cases token with
      | literal c =>
        obtain ⟨rest, rfl, hrest⟩ := h
        obtain ⟨u, v, rfl, hu, hv⟩ := ih.mp hrest
        exact ⟨c :: u, v, rfl, ⟨u, rfl, hu⟩, hv⟩
      | star =>
        obtain ⟨taken, rest, rfl, htaken, hrest⟩ := h
        obtain ⟨u, v, rfl, hu, hv⟩ := ih.mp hrest
        exact ⟨taken ++ u, v, by simp, ⟨taken, u, rfl, htaken, hu⟩, hv⟩
      | starStar =>
        obtain ⟨taken, rest, rfl, hrest⟩ := h
        obtain ⟨u, v, rfl, hu, hv⟩ := ih.mp hrest
        exact ⟨taken ++ u, v, by simp, ⟨taken, u, rfl, hu⟩, hv⟩
      | starStarSlash =>
        obtain ⟨taken, rest, rfl, htaken, hrest⟩ := h
        obtain ⟨u, v, rfl, hu, hv⟩ := ih.mp hrest
        exact ⟨taken ++ u, v, by simp, ⟨taken, u, rfl, htaken, hu⟩, hv⟩
    · rintro ⟨u, v, rfl, hu, hv⟩
      cases token with
      | literal c =>
        obtain ⟨rest, rfl, hrest⟩ := hu
        exact ⟨rest ++ v, rfl, ih.mpr ⟨rest, v, rfl, hrest, hv⟩⟩
      | star =>
        obtain ⟨taken, rest, rfl, htaken, hrest⟩ := hu
        exact ⟨taken, rest ++ v, by simp, htaken, ih.mpr ⟨rest, v, rfl, hrest, hv⟩⟩
      | starStar =>
        obtain ⟨taken, rest, rfl, hrest⟩ := hu
        exact ⟨taken, rest ++ v, by simp, ih.mpr ⟨rest, v, rfl, hrest, hv⟩⟩
      | starStarSlash =>
        obtain ⟨taken, rest, rfl, htaken, hrest⟩ := hu
        exact ⟨taken, rest ++ v, by simp, htaken, ih.mpr ⟨rest, v, rfl, hrest, hv⟩⟩

/-! ### Literals -/

def literals (l : List Char) : List GlobToken := l.map .literal

theorem matches_literals_append {l : List Char} {tokens : List GlobToken} {s : List Char} :
    Matches (literals l ++ tokens) s ↔ ∃ rest, s = l ++ rest ∧ Matches tokens rest := by
  induction l generalizing s with
  | nil => simp [literals]
  | cons c l ih =>
    show (∃ rest, s = c :: rest ∧ Matches (literals l ++ tokens) rest) ↔ _
    constructor
    · rintro ⟨rest, rfl, hrest⟩
      obtain ⟨rest', rfl, htokens⟩ := ih.mp hrest
      exact ⟨rest', rfl, htokens⟩
    · rintro ⟨rest, rfl, htokens⟩
      exact ⟨l ++ rest, rfl, ih.mpr ⟨rest, rfl, htokens⟩⟩

theorem matches_literals_append_self {l : List Char} {tokens : List GlobToken} {s : List Char} :
    Matches (literals l ++ tokens) (l ++ s) ↔ Matches tokens s := by
  rw [matches_literals_append]
  constructor
  · rintro ⟨rest, heq, htokens⟩
    rwa [List.append_cancel_left heq]
  · exact fun h => ⟨s, rfl, h⟩

theorem matches_literals {l s : List Char} : Matches (literals l) s ↔ s = l := by
  have h := @matches_literals_append l [] s
  rw [List.append_nil] at h
  rw [h]
  constructor
  · rintro ⟨rest, rfl, rfl⟩
    exact List.append_nil l
  · rintro rfl
    exact ⟨[], (List.append_nil s).symm, rfl⟩

/-! ### Stars -/

/-- A star, crossing separators or not. -/
def starToken : Bool → GlobToken
  | true => .starStar
  | false => .star

/-- What such a star can take. -/
def Takes (crosses : Bool) (u : List Char) : Prop := crosses = true ∨ '/' ∉ u

theorem takes_cons {crosses : Bool} {c : Char} {u : List Char} :
    Takes crosses (c :: u) ↔ Takes crosses [c] ∧ Takes crosses u := by
  simp only [Takes, List.mem_cons, List.not_mem_nil, or_false, not_or]
  tauto

theorem matches_starToken {crosses : Bool} {tokens : List GlobToken} {s : List Char} :
    Matches (starToken crosses :: tokens) s ↔
      ∃ u rest, s = u ++ rest ∧ Takes crosses u ∧ Matches tokens rest := by
  cases crosses <;> simp [starToken, Matches, Takes]

/-- A star takes nothing, or the next character and goes on. -/
theorem matches_starToken_cons {crosses : Bool} {tokens : List GlobToken} {c : Char}
    {s : List Char} :
    Matches (starToken crosses :: tokens) (c :: s) ↔
      Matches tokens (c :: s) ∨
        Takes crosses [c] ∧ Matches (starToken crosses :: tokens) s := by
  rw [matches_starToken, matches_starToken]
  constructor
  · rintro ⟨u, rest, heq, htakes, htokens⟩
    cases u with
    | nil =>
      rw [List.nil_append] at heq
      exact .inl (heq ▸ htokens)
    | cons d u =>
      obtain ⟨rfl, rfl⟩ := List.cons.inj heq
      obtain ⟨hc, hu⟩ := takes_cons.mp htakes
      exact .inr ⟨hc, u, rest, rfl, hu, htokens⟩
  · rintro (htokens | ⟨htakes, u, rest, rfl, hu, htokens⟩)
    · exact ⟨[], c :: s, rfl, .inr (by simp), htokens⟩
    · exact ⟨c :: u, rest, rfl, takes_cons.mpr ⟨htakes, hu⟩, htokens⟩

/-- A star that is followed by a text that matched and by a later star can be
    taken to have matched nothing: what it would take more is left to the later
    one. -/
theorem matches_exchange {crosses crosses' : Bool} {l : List Char} {tokens : List GlobToken}
    {s : List Char} (h : crosses = true → crosses' = true) :
    Matches (starToken crosses :: (literals l ++ starToken crosses' :: tokens)) (l ++ s) ↔
      Matches (starToken crosses' :: tokens) s := by
  constructor
  · intro hmatch
    obtain ⟨u, rest, heq, htakes, hrest⟩ := matches_starToken.mp hmatch
    obtain ⟨rest', rfl, hlater⟩ := matches_literals_append.mp hrest
    obtain ⟨v, rest'', rfl, htakes', htokens⟩ := matches_starToken.mp hlater
    -- the text behind `l` starts with as many characters as the first star took
    obtain ⟨x, hx, rfl⟩ : ∃ x, l ++ x = u ++ l ∧ s = x ++ (v ++ rest'') := by
      have hahead : l <+: u ++ l := by
        refine List.prefix_of_prefix_length_le ⟨s, heq⟩ ⟨v ++ rest'', by simp⟩ (by simp)
      obtain ⟨x, hx⟩ := hahead
      refine ⟨x, hx, ?_⟩
      rw [← List.append_assoc, ← hx, List.append_assoc] at heq
      exact List.append_cancel_left heq
    refine matches_starToken.mpr ⟨x ++ v, rest'', by simp, ?_, htokens⟩
    rcases htakes' with hcrosses | hv
    · exact .inl hcrosses
    · rcases htakes with hcrosses | hu
      · exact .inl (h hcrosses)
      · -- `x` has as many separators as `u`, which has none
        have hcount := congrArg (List.count '/') hx
        rw [List.count_append, List.count_append, List.count_eq_zero_of_not_mem hu] at hcount
        have hx' : '/' ∉ x := List.count_eq_zero.mp (by omega)
        exact .inr (by simp [hx', hv])
  · intro hmatch
    refine matches_starToken.mpr ⟨[], l ++ s, rfl, .inr (by simp), ?_⟩
    exact matches_literals_append_self.mpr hmatch

/-- The same with whole segments behind a separator. -/
theorem matches_exchange_slash {crosses : Bool} {l : List Char} {tokens : List GlobToken}
    {s : List Char} (hlast : l.getLast? = some '/') :
    Matches (starToken crosses :: (literals l ++ .starStarSlash :: tokens)) (l ++ s) ↔
      Matches (.starStarSlash :: tokens) s := by
  constructor
  · intro hmatch
    obtain ⟨u, rest, heq, -, hrest⟩ := matches_starToken.mp hmatch
    obtain ⟨rest', rfl, hlater⟩ := matches_literals_append.mp hrest
    obtain ⟨v, rest'', rfl, hsegments, htokens⟩ := hlater
    obtain ⟨x, hx⟩ : l <+: u ++ l :=
      List.prefix_of_prefix_length_le ⟨s, heq⟩ ⟨v ++ rest'', by simp⟩ (by simp)
    obtain rfl : s = x ++ (v ++ rest'') := by
      rw [← List.append_assoc, ← hx, List.append_assoc] at heq
      exact List.append_cancel_left heq
    refine ⟨x ++ v, rest'', by simp, ?_, htokens⟩
    -- `x` ends as `l` does, with a separator
    have hends : x = [] ∨ x.getLast? = some '/' := by
      by_cases hne : x = []
      · exact .inl hne
      · right
        have hlength : l ≠ [] := by
          rintro rfl
          cases hlast
        rw [← List.getLast?_append_of_ne_nil l hne, hx, List.getLast?_append_of_ne_nil u hlength,
          hlast]
    rcases hsegments with rfl | hv
    · simpa using hends
    · right
      have hne : v ≠ [] := by
        rintro rfl
        cases hv
      rw [List.getLast?_append_of_ne_nil x hne, hv]
  · intro hmatch
    refine matches_starToken.mpr ⟨[], l ++ s, rfl, .inr (by simp), ?_⟩
    exact matches_literals_append_self.mpr hmatch

/-- Whole segments are a text with a separator behind it, or none. -/
theorem matches_starStarSlash {tokens : List GlobToken} {s : List Char} :
    Matches (.starStarSlash :: tokens) s ↔
      Matches tokens s ∨ Matches (.starStar :: .literal '/' :: tokens) s := by
  constructor
  · rintro ⟨u, rest, rfl, rfl | hu, hrest⟩
    · exact .inl hrest
    · obtain ⟨front, rfl⟩ := List.getLast?_eq_some_iff.mp hu
      exact .inr ⟨front, '/' :: rest, by simp, rest, rfl, hrest⟩
  · rintro (hrest | ⟨u, behind, rfl, rest, rfl, hrest⟩)
    · exact ⟨[], s, rfl, .inl rfl, hrest⟩
    · exact ⟨u ++ ['/'], rest, by simp, .inr (by simp), hrest⟩

/-- A double star can take the separator that is behind it. -/
theorem matches_of_matches_slash {tokens : List GlobToken} {s : List Char}
    (h : Matches (.starStar :: .literal '/' :: tokens) s) : Matches (.starStar :: tokens) s := by
  obtain ⟨u, behind, rfl, rest, rfl, hrest⟩ := h
  exact ⟨u ++ ['/'], rest, by simp, hrest⟩

/-! ### The end of the text -/

theorem matches_starToken_nil {crosses : Bool} {tokens : List GlobToken} :
    Matches (starToken crosses :: tokens) [] ↔ Matches tokens [] := by
  rw [matches_starToken]
  constructor
  · rintro ⟨u, rest, heq, -, htokens⟩
    obtain ⟨rfl, rfl⟩ := List.append_eq_nil_iff.mp heq.symm
    exact htokens
  · exact fun h => ⟨[], [], rfl, .inr (by simp), h⟩

/-- A star in front of the literals that are the whole text takes nothing. -/
theorem matches_star_literals {crosses : Bool} {l : List Char} {tokens : List GlobToken} :
    Matches (starToken crosses :: (literals l ++ tokens)) l ↔ Matches tokens [] := by
  constructor
  · intro hmatch
    obtain ⟨u, rest, heq, -, hrest⟩ := matches_starToken.mp hmatch
    obtain ⟨rest', rfl, htokens⟩ := matches_literals_append.mp hrest
    have hlength := congrArg List.length heq
    rw [List.length_append, List.length_append] at hlength
    obtain rfl : rest' = [] := List.length_eq_zero_iff.mp (by omega)
    exact htokens
  · intro htokens
    refine matches_starToken.mpr ⟨[], l, rfl, .inr (by simp), ?_⟩
    rw [matches_literals_append]
    exact ⟨[], by simp, htokens⟩

end Synvoid.Framework
