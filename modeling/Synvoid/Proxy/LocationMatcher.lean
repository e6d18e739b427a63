import Synvoid.Framework.RustStr
import Synvoid.Framework.Table

/-! # Selection of a location

    Model of `LocationMatcher` (`synvoid-proxy/src/location_matcher.rs`) with
    `check_regex_complexity` (`synvoid-utils/src/regex_utils.rs`). The `regex`
    crate is a parameter.

    The matcher keeps three structures: a map of the exact locations, a list of
    the prefixes sorted by their length, and a list of the regular expressions.
    `match_uri_best` says what the three together select: of all locations that
    match, the one that outranks all others (`Outranks`).
-/

namespace Synvoid.Proxy

open Synvoid.Framework

/-! ## Section 1: The model -/

def regexSizeLimit : Nat := 1024
def regexMaxQuantifiers : Nat := 10
def regexMaxGroups : Nat := 20

/-- `matches(needle).count()`, without overlaps. -/
def countMatches (needle : Str) : Nat → Str → Nat
  | 0, _ => 0
  | _ + 1, [] => 0
  | fuel + 1, c :: s =>
      match needle.isPrefixOf? (c :: s) with
      | some rest => 1 + countMatches needle fuel rest
      | none => countMatches needle fuel s

/-- The field `safe` of `check_regex_complexity`. -/
def regexComplexitySafe (pattern : Str) : Bool :=
  let nestedQuantifiers := ["(.*)+", "(.+)+", "([^]]*)+", "([^]]*)*"]
  let lookarounds := ["(?=", "(?!", "(?<=", "(?<!"]
  byteLen pattern ≤ regexSizeLimit &&
    nestedQuantifiers.all (fun nested => !decide (nested.toList <:+: pattern)) &&
    (pattern.filter fun c => c == '+' || c == '*').length ≤ regexMaxQuantifiers &&
    pattern.count '(' ≤ regexMaxGroups &&
    lookarounds.all fun l => countMatches l.toList pattern.length pattern ≤ 5

/-- The `regex` crate. -/
structure RegexEngine (ρ : Type) where
  new : Str → Option ρ
  isMatch : ρ → Str → Bool

inductive LocationMatchType where
  | exact
  | preferentialPrefix
  | regex
  | plainPrefix
  deriving DecidableEq, Repr

structure LocationMatch (ρ : Type) where
  pattern : Str
  matchType : LocationMatchType
  regex : Option ρ
  originalOrder : Nat

variable {ρ : Type}

/-- The location of a regular expression: `stripped` is checked, and
    `expression` compiled. -/
def LocationMatch.newRegex (engine : RegexEngine ρ) (pattern stripped expression : Str)
    (originalOrder : Nat) : Option (LocationMatch ρ) :=
  if regexComplexitySafe stripped then
    (engine.new expression).map fun regex => ⟨pattern, .regex, some regex, originalOrder⟩
  else none

def LocationMatch.new (engine : RegexEngine ρ) (pattern : Str) (originalOrder : Nat) :
    Option (LocationMatch ρ) :=
  match "= ".toList.isPrefixOf? pattern with
  | some stripped => some ⟨stripped, .exact, none, originalOrder⟩
  | none =>
    match "^~ ".toList.isPrefixOf? pattern with
    | some stripped => some ⟨stripped, .preferentialPrefix, none, originalOrder⟩
    | none =>
      match "~ ".toList.isPrefixOf? pattern with
      | some stripped => LocationMatch.newRegex engine pattern stripped stripped originalOrder
      | none =>
        match "~* ".toList.isPrefixOf? pattern with
        | some stripped =>
            LocationMatch.newRegex engine pattern stripped ("(?i)".toList ++ stripped) originalOrder
        | none => some ⟨pattern, .plainPrefix, none, originalOrder⟩

def LocationMatch.matches (engine : RegexEngine ρ) (location : LocationMatch ρ)
    (uri : Str) : Bool :=
  match location.matchType with
  | .exact => uri == location.pattern
  | .preferentialPrefix | .plainPrefix => location.pattern.isPrefixOf uri
  | .regex => location.regex.elim false fun regex => engine.isMatch regex uri

/-- `(usize, LocationMatchType)`. -/
abbrev LocationIndex := Nat × LocationMatchType

structure LocationMatcher (ρ : Type) where
  exactLocations : Table Str LocationIndex
  prefixLocations : List (Str × LocationIndex)
  regexLocations : List (LocationMatch ρ)

def LocationMatcher.push (matcher : LocationMatcher ρ) (location : LocationMatch ρ) :
    LocationMatcher ρ :=
  let index := (location.originalOrder, location.matchType)
  match location.matchType with
  | .regex => { matcher with regexLocations := matcher.regexLocations ++ [location] }
  | .exact =>
    { matcher with exactLocations := matcher.exactLocations.insert location.pattern index }
  | .preferentialPrefix | .plainPrefix =>
      { matcher with prefixLocations := matcher.prefixLocations ++ [(location.pattern, index)] }

/-- The locations of the patterns that give one. -/
def locationsOf (engine : RegexEngine ρ) (patterns : List Str) : List (LocationMatch ρ) :=
  patterns.zipIdx.filterMap fun entry => LocationMatch.new engine entry.1 entry.2

/-- The prefixes are sorted by `Reverse(len)`; the sort is stable. -/
def LocationMatcher.new (engine : RegexEngine ρ) (patterns : List Str) : LocationMatcher ρ :=
  let matcher := (locationsOf engine patterns).foldl LocationMatcher.push ⟨∅, [], []⟩
  { matcher with
    prefixLocations := matcher.prefixLocations.insertionSort fun a b => byteLen b.1 ≤ byteLen a.1 }

/-- The loop over the prefixes: the preferential prefix that it returns, and
    the best prefix. -/
def prefixLoop (uri : Str) : List (Str × LocationIndex) → Option LocationIndex →
    Option LocationIndex × Option LocationIndex
  | [], bestPrefix => (none, bestPrefix)
  | (pattern, val) :: rest, bestPrefix =>
      if pattern.isPrefixOf uri then
        if val.2 = .preferentialPrefix then (some val, bestPrefix)
        else prefixLoop uri rest (bestPrefix.or (some val))
      else prefixLoop uri rest bestPrefix

def LocationMatcher.matchUri (engine : RegexEngine ρ) (matcher : LocationMatcher ρ) (uri : Str) :
    Option LocationIndex :=
  match matcher.exactLocations.lookup uri with
  | some index => some index
  | none =>
    match prefixLoop uri matcher.prefixLocations none with
    | (some val, _) => some val
    | (none, bestPrefix) =>
      match matcher.regexLocations.find? fun location => location.matches engine uri with
      | some location => some (location.originalOrder, .regex)
      | none => bestPrefix

/-! ## Section 2: The order of the locations -/

def LocationMatchType.rank : LocationMatchType → Nat
  | .exact => 0
  | .preferentialPrefix => 1
  | .regex => 2
  | .plainPrefix => 3

/-- Exact locations come first, then preferential prefixes, regular expressions
    and prefixes. Of two exact locations the later one counts, of two regular
    expressions the earlier one, and of two prefixes the longer one and of two
    of one length the earlier one. -/
def LocationMatch.Outranks (a b : LocationMatch ρ) : Prop :=
  a.matchType.rank < b.matchType.rank ∨ a.matchType = b.matchType ∧
    match a.matchType with
    | .exact => b.originalOrder < a.originalOrder
    | .regex => a.originalOrder < b.originalOrder
    | .preferentialPrefix | .plainPrefix =>
        byteLen b.pattern < byteLen a.pattern ∨
          byteLen a.pattern = byteLen b.pattern ∧ a.originalOrder < b.originalOrder

/-- The location that matches and outranks all others that match. -/
def IsBest (engine : RegexEngine ρ) (locations : List (LocationMatch ρ)) (uri : Str)
    (best : LocationMatch ρ) : Prop :=
  best ∈ locations ∧ best.matches engine uri = true ∧
    ∀ other ∈ locations, other.matches engine uri = true → other = best ∨ best.Outranks other

theorem outranks_of_rank_lt {a b : LocationMatch ρ} {kindA kindB : LocationMatchType}
    (ha : a.matchType = kindA) (hb : b.matchType = kindB) (h : kindA.rank < kindB.rank) :
    a.Outranks b := by
  subst ha hb
  exact .inl h

theorem Outranks.asymm {a b : LocationMatch ρ} (h : a.Outranks b) : ¬ b.Outranks a := by
  intro h'
  unfold LocationMatch.Outranks at h h'
  rcases h with hrank | ⟨htype, horder⟩
  · rcases h' with hrank' | ⟨htype', -⟩
    · exact Nat.lt_asymm hrank hrank'
    · rw [htype'] at hrank
      exact Nat.lt_irrefl _ hrank
  · rcases h' with hrank' | ⟨-, horder'⟩
    · rw [htype] at hrank'
      exact Nat.lt_irrefl _ hrank'
    · rw [← htype] at horder'
      cases htypea : a.matchType with
      | exact =>
        simp only [htypea] at horder horder'
        exact Nat.lt_asymm horder horder'
      | regex =>
        simp only [htypea] at horder horder'
        exact Nat.lt_asymm horder horder'
      | preferentialPrefix =>
        simp only [htypea] at horder horder'
        omega
      | plainPrefix =>
        simp only [htypea] at horder horder'
        omega

theorem IsBest.unique {engine : RegexEngine ρ} {locations : List (LocationMatch ρ)} {uri : Str}
    {a b : LocationMatch ρ} (ha : IsBest engine locations uri a)
    (hb : IsBest engine locations uri b) :
    a = b := by
  rcases hb.2.2 a ha.1 ha.2.1 with heq | hba
  · exact heq
  · rcases ha.2.2 b hb.1 hb.2.1 with heq | hab
    · exact heq.symm
    · exact absurd hab (Outranks.asymm hba)

/-! ## Section 3: The three structures -/

theorem originalOrder_of_new {engine : RegexEngine ρ} {pattern : Str} {order : Nat}
    {location : LocationMatch ρ} (h : LocationMatch.new engine pattern order = some location) :
    location.originalOrder = order := by
  have hregex : ∀ stripped expression : Str,
      LocationMatch.newRegex engine pattern stripped expression order = some location →
      location.originalOrder = order := by
    intro stripped expression hnew
    unfold LocationMatch.newRegex at hnew
    split at hnew
    · obtain ⟨regex, -, rfl⟩ := Option.map_eq_some_iff.mp hnew
      rfl
    · cases hnew
  unfold LocationMatch.new at h
  split at h
  · obtain rfl := Option.some.inj h
    rfl
  · split at h
    · obtain rfl := Option.some.inj h
      rfl
    · split at h
      · exact hregex _ _ h
      · split at h
        · exact hregex _ _ h
        · obtain rfl := Option.some.inj h
          rfl

/-- The locations are in the order of their patterns. -/
theorem pairwise_locationsOf (engine : RegexEngine ρ) (patterns : List Str) :
    (locationsOf engine patterns).Pairwise fun a b => a.originalOrder < b.originalOrder := by
  have hindex : patterns.zipIdx.Pairwise fun a b => a.2 < b.2 := by
    rw [← List.pairwise_map (f := Prod.snd), List.zipIdx_map_snd]
    exact List.pairwise_lt_range'
  refine List.Pairwise.filterMap _ ?_ hindex
  intro a b hlt location hlocation other hother
  rw [originalOrder_of_new hlocation, originalOrder_of_new hother]
  exact hlt

/-- The last exact location of a path. -/
theorem lookup_foldl_push (locations : List (LocationMatch ρ)) (uri : Str) :
    (locations.foldl LocationMatcher.push ⟨∅, [], []⟩).exactLocations.lookup uri =
      ((locations.filter fun location =>
        location.matchType = .exact ∧ location.pattern = uri).getLast?).map
          fun location => (location.originalOrder, .exact) := by
  induction locations using List.reverseRecOn with
  | nil => rfl
  | append_singleton locations location ih =>
    rw [List.foldl_append, List.foldl_cons, List.foldl_nil, List.filter_append]
    cases htype : location.matchType with
    | exact =>
      simp only [LocationMatcher.push, htype, Table.lookup_insert_eq]
      by_cases huri : uri = location.pattern
      · simp [huri, htype]
      · simp [huri, Ne.symm huri, htype, ih]
    | regex => simp [LocationMatcher.push, htype, ih]
    | preferentialPrefix => simp [LocationMatcher.push, htype, ih]
    | plainPrefix => simp [LocationMatcher.push, htype, ih]

def LocationMatch.isPrefix (location : LocationMatch ρ) : Bool :=
  location.matchType = .preferentialPrefix || location.matchType = .plainPrefix

/-- The entry of a prefix. -/
def prefixEntry (location : LocationMatch ρ) : Str × LocationIndex :=
  (location.pattern, location.originalOrder, location.matchType)

theorem prefixLocations_foldl_push (locations : List (LocationMatch ρ)) :
    (locations.foldl LocationMatcher.push ⟨∅, [], []⟩).prefixLocations =
      (locations.filter LocationMatch.isPrefix).map prefixEntry := by
  induction locations using List.reverseRecOn with
  | nil => rfl
  | append_singleton locations location ih =>
    rw [List.foldl_append, List.foldl_cons, List.foldl_nil, List.filter_append, List.map_append]
    cases htype : location.matchType <;>
      simp [LocationMatcher.push, htype, ih, LocationMatch.isPrefix, prefixEntry]

theorem regexLocations_foldl_push (locations : List (LocationMatch ρ)) :
    (locations.foldl LocationMatcher.push ⟨∅, [], []⟩).regexLocations =
      locations.filter fun location => location.matchType = .regex := by
  induction locations using List.reverseRecOn with
  | nil => rfl
  | append_singleton locations location ih =>
    rw [List.foldl_append, List.foldl_cons, List.foldl_nil, List.filter_append]
    cases htype : location.matchType <;> simp [LocationMatcher.push, htype, ih]

/-- Longer prefixes first, and those of one length in their order. -/
def Precedes (a b : LocationMatch ρ) : Prop :=
  byteLen b.pattern < byteLen a.pattern ∨
    byteLen a.pattern = byteLen b.pattern ∧ a.originalOrder < b.originalOrder

/-- Sorting by length keeps the order of those of one length. -/
theorem pairwise_insertionSort_precedes {locations : List (LocationMatch ρ)}
    (h : locations.Pairwise fun a b => a.originalOrder < b.originalOrder) :
    (locations.insertionSort fun a b => byteLen b.pattern ≤ byteLen a.pattern).Pairwise
      Precedes := by
  induction locations with
  | nil => exact List.Pairwise.nil
  | cons location rest ih =>
    obtain ⟨hfirst, hrest⟩ := List.pairwise_cons.mp h
    have hsorted := ih hrest
    rw [List.insertionSort_cons]
    have hmem : ∀ other ∈ rest.insertionSort fun a b => byteLen b.pattern ≤ byteLen a.pattern,
        location.originalOrder < other.originalOrder := by
      intro other hother
      exact hfirst other ((List.mem_insertionSort _).mp hother)
    generalize rest.insertionSort (fun a b => byteLen b.pattern ≤ byteLen a.pattern) = sorted at *
    clear ih hrest hfirst h
    -- the location goes behind those that are strictly longer
    induction sorted with
    | nil => exact List.pairwise_singleton _ _
    | cons next more ih =>
      obtain ⟨hnext, hmore⟩ := List.pairwise_cons.mp hsorted
      obtain ⟨hltNext, hltMore⟩ := List.forall_mem_cons.mp hmem
      rw [List.orderedInsert_cons]
      split
      · next hle =>
        refine List.pairwise_cons.mpr ⟨?_, hsorted⟩
        intro other hother
        have horder := hmem other hother
        unfold Precedes at *
        rcases List.mem_cons.mp hother with rfl | hother
        · omega
        · have hafter := hnext other hother
          omega
      · next hlt =>
        refine List.pairwise_cons.mpr ⟨?_, ih hmore hltMore⟩
        intro other hother
        rcases (List.mem_orderedInsert _).mp hother with rfl | hother
        · exact .inl (by omega)
        · exact hnext other hother

/-! ## Section 4: What is selected -/

/-- What is found first in an ordered list comes before all else that could
    have been found. -/
theorem find?_first {α : Type} {R : α → α → Prop} {l : List α} (hl : l.Pairwise R) {p : α → Bool}
    {a : α} (h : l.find? p = some a) : ∀ b ∈ l, p b = true → b = a ∨ R a b := by
  obtain ⟨-, before, after, rfl, hbefore⟩ := List.find?_eq_some_iff_append.mp h
  intro b hb hpb
  rcases List.mem_append.mp hb with hb | hb
  · have hnot := hbefore b hb
    rw [hpb] at hnot
    cases hnot
  · rcases List.mem_cons.mp hb with rfl | hb
    · exact .inl rfl
    · exact .inr ((List.pairwise_cons.mp (List.pairwise_append.mp hl).2.1).1 b hb)

/-- The preferential prefix that the loop returns is the first one. -/
theorem prefixLoop_fst (uri : Str) (l : List (Str × LocationIndex)) (best : Option LocationIndex) :
    (prefixLoop uri l best).1 = (l.find? fun entry =>
      entry.1.isPrefixOf uri && decide (entry.2.2 = .preferentialPrefix)).map Prod.snd := by
  induction l generalizing best with
  | nil => rfl
  | cons entry rest ih =>
    obtain ⟨pattern, val⟩ := entry
    unfold prefixLoop
    by_cases hpattern : pattern.isPrefixOf uri = true
    · by_cases htype : val.2 = .preferentialPrefix
      · simp [hpattern, htype]
      · simp [hpattern, htype, ih]
    · simp [hpattern, ih]

/-- Without one the best prefix is the first one. -/
theorem prefixLoop_snd {uri : Str} {l : List (Str × LocationIndex)} {best : Option LocationIndex}
    (h : (prefixLoop uri l best).1 = none) : (prefixLoop uri l best).2 =
      best.or ((l.find? fun entry => entry.1.isPrefixOf uri).map Prod.snd) := by
  induction l generalizing best with
  | nil => simp [prefixLoop]
  | cons entry rest ih =>
    obtain ⟨pattern, val⟩ := entry
    unfold prefixLoop at h ⊢
    by_cases hpattern : pattern.isPrefixOf uri = true
    · by_cases htype : val.2 = .preferentialPrefix
      · simp [hpattern, htype] at h
      · simp only [hpattern, htype, if_true, if_false] at h ⊢
        rw [ih h]
        cases best <;> simp [hpattern]
    · simp only [hpattern, Bool.false_eq_true, if_false] at h ⊢
      rw [ih h]
      simp [hpattern]

section selection
variable {engine : RegexEngine ρ} {patterns : List Str} {uri : Str}

/-- The prefixes of the matcher, as locations. -/
def sortedPrefixes (engine : RegexEngine ρ) (patterns : List Str) : List (LocationMatch ρ) :=
  ((locationsOf engine patterns).filter LocationMatch.isPrefix).insertionSort
    fun a b => byteLen b.pattern ≤ byteLen a.pattern

theorem prefixLocations_new :
    (LocationMatcher.new engine patterns).prefixLocations =
      (sortedPrefixes engine patterns).map prefixEntry := by
  unfold LocationMatcher.new sortedPrefixes
  simp only [prefixLocations_foldl_push]
  rw [List.map_insertionSort (fun a b : LocationMatch ρ => byteLen b.pattern ≤ byteLen a.pattern)
    (fun a b : Str × LocationIndex => byteLen b.1 ≤ byteLen a.1) prefixEntry _
    (fun _ _ _ _ => Iff.rfl)]

theorem mem_sortedPrefixes {location : LocationMatch ρ} :
    location ∈ sortedPrefixes engine patterns ↔
      location ∈ locationsOf engine patterns ∧ location.isPrefix = true := by
  unfold sortedPrefixes
  rw [List.mem_insertionSort, List.mem_filter]

theorem pairwise_sortedPrefixes : (sortedPrefixes engine patterns).Pairwise Precedes :=
  pairwise_insertionSort_precedes ((pairwise_locationsOf engine patterns).filter _)

theorem lookup_new : (LocationMatcher.new engine patterns).exactLocations.lookup uri =
    (((locationsOf engine patterns).filter fun location =>
      location.matchType = .exact ∧ location.pattern = uri).getLast?).map
        fun location => (location.originalOrder, .exact) :=
  lookup_foldl_push _ _

theorem regexLocations_new : (LocationMatcher.new engine patterns).regexLocations =
    (locationsOf engine patterns).filter fun location => location.matchType = .regex :=
  regexLocations_foldl_push _

/-- The loop over the sorted prefixes, as two searches through the locations. -/
theorem prefixLoop_fst_new :
    (prefixLoop uri (LocationMatcher.new engine patterns).prefixLocations none).1 =
      ((sortedPrefixes engine patterns).find? fun location =>
        location.pattern.isPrefixOf uri && decide (location.matchType = .preferentialPrefix)).map
          fun location => (location.originalOrder, location.matchType) := by
  rw [prefixLoop_fst, prefixLocations_new, List.find?_map, Option.map_map]
  rfl

theorem prefixLoop_snd_new
    (h : (prefixLoop uri (LocationMatcher.new engine patterns).prefixLocations none).1 = none) :
    (prefixLoop uri (LocationMatcher.new engine patterns).prefixLocations none).2 =
      ((sortedPrefixes engine patterns).find? fun location => location.pattern.isPrefixOf uri).map
        fun location => (location.originalOrder, location.matchType) := by
  rw [prefixLoop_snd h, Option.none_or, prefixLocations_new, List.find?_map, Option.map_map]
  rfl

theorem pattern_of_matches_exact {location : LocationMatch ρ} (htype : location.matchType = .exact)
    (h : location.matches engine uri = true) : location.pattern = uri := by
  unfold LocationMatch.matches at h
  rw [htype] at h
  exact (beq_iff_eq.mp h).symm

/-- An exact location is the last one of its path. -/
theorem isBest_exact {index : LocationIndex}
    (h : (LocationMatcher.new engine patterns).exactLocations.lookup uri = some index) :
    ∃ best, IsBest engine (locationsOf engine patterns) uri best ∧
      index = (best.originalOrder, best.matchType) := by
  rw [lookup_new] at h
  obtain ⟨best, hlast, rfl⟩ := Option.map_eq_some_iff.mp h
  have hmem := List.mem_of_getLast? hlast
  simp only [List.mem_filter, decide_eq_true_eq] at hmem
  obtain ⟨hlocation, htype, hpattern⟩ := hmem
  refine ⟨best, ⟨hlocation, by simp [LocationMatch.matches, htype, hpattern], ?_⟩, by rw [htype]⟩
  intro other hother hmatches
  cases hothertype : other.matchType with
  | exact =>
    -- all others of this path were there before
    have hotherpattern := pattern_of_matches_exact hothertype hmatches
    have hotherMem : other ∈ (locationsOf engine patterns).filter fun location =>
        location.matchType = .exact ∧ location.pattern = uri := by
      simp [List.mem_filter, hother, hothertype, hotherpattern]
    have hpairwise := (pairwise_locationsOf engine patterns).filter fun location =>
      decide (location.matchType = .exact ∧ location.pattern = uri)
    obtain ⟨before, hbefore⟩ := List.getLast?_eq_some_iff.mp hlast
    rw [hbefore] at hotherMem hpairwise
    rcases List.mem_append.mp hotherMem with hearlier | hsame
    · have hlt := (List.pairwise_append.mp hpairwise).2.2 other hearlier best (by simp)
      refine .inr (.inr ⟨by rw [htype, hothertype], ?_⟩)
      rw [htype]
      exact hlt
    · exact .inl (List.mem_singleton.mp hsame)
  | preferentialPrefix => exact .inr (outranks_of_rank_lt htype hothertype (by decide))
  | regex => exact .inr (outranks_of_rank_lt htype hothertype (by decide))
  | plainPrefix => exact .inr (outranks_of_rank_lt htype hothertype (by decide))

theorem no_exact_of_lookup
    (h : (LocationMatcher.new engine patterns).exactLocations.lookup uri = none)
    {other : LocationMatch ρ} (hother : other ∈ locationsOf engine patterns)
    (hmatches : other.matches engine uri = true) : other.matchType ≠ .exact := by
  intro htype
  rw [lookup_new, Option.map_eq_none_iff, List.getLast?_eq_none_iff, List.filter_eq_nil_iff] at h
  apply h other hother
  simp [htype, pattern_of_matches_exact htype hmatches]

theorem matches_of_isPrefix {location : LocationMatch ρ} (h : location.isPrefix = true) :
    location.matches engine uri = location.pattern.isPrefixOf uri := by
  unfold LocationMatch.isPrefix at h
  unfold LocationMatch.matches
  cases htype : location.matchType with
  | preferentialPrefix => rfl
  | plainPrefix => rfl
  | exact => simp [htype] at h
  | regex => simp [htype] at h

/-- Of two prefixes of one kind the one that precedes outranks the other. -/
theorem Precedes.outranks {a b : LocationMatch ρ} (h : Precedes a b) (ha : a.isPrefix = true)
    (htype : a.matchType = b.matchType) : a.Outranks b := by
  unfold LocationMatch.isPrefix at ha
  refine .inr ⟨htype, ?_⟩
  cases htypea : a.matchType with
  | preferentialPrefix => exact h
  | plainPrefix => exact h
  | exact => simp [htypea] at ha
  | regex => simp [htypea] at ha

/-- The preferential prefix that the loop returns is the longest one. -/
theorem isBest_preferential
    (hexact : (LocationMatcher.new engine patterns).exactLocations.lookup uri = none)
    {index : LocationIndex}
    (h : (prefixLoop uri (LocationMatcher.new engine patterns).prefixLocations none).1 =
      some index) :
    ∃ best, IsBest engine (locationsOf engine patterns) uri best ∧
      index = (best.originalOrder, best.matchType) := by
  rw [prefixLoop_fst_new] at h
  obtain ⟨best, hfind, rfl⟩ := Option.map_eq_some_iff.mp h
  obtain ⟨hlocation, hkind⟩ := mem_sortedPrefixes.mp (List.mem_of_find?_eq_some hfind)
  have hfound : best.pattern.isPrefixOf uri = true ∧ best.matchType = .preferentialPrefix := by
    have hfirst := List.find?_some hfind
    simp only [Bool.and_eq_true] at hfirst
    exact ⟨hfirst.1, of_decide_eq_true hfirst.2⟩
  refine ⟨best, ⟨hlocation, (matches_of_isPrefix hkind).trans hfound.1, ?_⟩, rfl⟩
  intro other hother hmatches
  cases hothertype : other.matchType with
  | exact => exact absurd hothertype (no_exact_of_lookup hexact hother hmatches)
  | preferentialPrefix =>
    have hotherKind : other.isPrefix = true := by simp [LocationMatch.isPrefix, hothertype]
    rw [matches_of_isPrefix hotherKind] at hmatches
    rcases find?_first pairwise_sortedPrefixes hfind other
      (mem_sortedPrefixes.mpr ⟨hother, hotherKind⟩) (by simp [hmatches, hothertype])
      with heq | hprecedes
    · exact .inl heq
    · exact .inr (hprecedes.outranks hkind (by rw [hfound.2, hothertype]))
  | regex => exact .inr (outranks_of_rank_lt hfound.2 hothertype (by decide))
  | plainPrefix => exact .inr (outranks_of_rank_lt hfound.2 hothertype (by decide))

theorem no_preferential_of_loop
    (h : (prefixLoop uri (LocationMatcher.new engine patterns).prefixLocations none).1 = none)
    {other : LocationMatch ρ} (hother : other ∈ locationsOf engine patterns)
    (hmatches : other.matches engine uri = true) : other.matchType ≠ .preferentialPrefix := by
  intro htype
  have hkind : other.isPrefix = true := by simp [LocationMatch.isPrefix, htype]
  rw [matches_of_isPrefix hkind] at hmatches
  rw [prefixLoop_fst_new, Option.map_eq_none_iff, List.find?_eq_none] at h
  apply h other (mem_sortedPrefixes.mpr ⟨hother, hkind⟩)
  simp [hmatches, htype]

/-- The regular expression that is found is the first one. -/
theorem isBest_regex
    (hexact : (LocationMatcher.new engine patterns).exactLocations.lookup uri = none)
    (hloop : (prefixLoop uri (LocationMatcher.new engine patterns).prefixLocations none).1 = none)
    {best : LocationMatch ρ}
    (h : (LocationMatcher.new engine patterns).regexLocations.find?
      (fun location => location.matches engine uri) = some best) :
    IsBest engine (locationsOf engine patterns) uri best ∧ best.matchType = .regex := by
  rw [regexLocations_new] at h
  have hmem := List.mem_of_find?_eq_some h
  simp only [List.mem_filter, decide_eq_true_eq] at hmem
  obtain ⟨hlocation, htype⟩ := hmem
  have hfound := List.find?_some h
  refine ⟨⟨hlocation, hfound, ?_⟩, htype⟩
  intro other hother hmatches
  cases hothertype : other.matchType with
  | exact => exact absurd hothertype (no_exact_of_lookup hexact hother hmatches)
  | preferentialPrefix =>
    exact absurd hothertype (no_preferential_of_loop hloop hother hmatches)
  | regex =>
    have hpairwise := (pairwise_locationsOf engine patterns).filter fun location =>
      decide (location.matchType = .regex)
    rcases find?_first hpairwise h other (by simp [List.mem_filter, hother, hothertype]) hmatches
      with heq | hlt
    · exact .inl heq
    · refine .inr (.inr ⟨by rw [htype, hothertype], ?_⟩)
      rw [htype]
      exact hlt
  | plainPrefix => exact .inr (outranks_of_rank_lt htype hothertype (by decide))

theorem no_regex_of_find
    (h : (LocationMatcher.new engine patterns).regexLocations.find?
      (fun location => location.matches engine uri) = none)
    {other : LocationMatch ρ} (hother : other ∈ locationsOf engine patterns)
    (hmatches : other.matches engine uri = true) : other.matchType ≠ .regex := by
  intro htype
  rw [regexLocations_new, List.find?_eq_none] at h
  exact h other (by simp [List.mem_filter, hother, htype]) hmatches

/-- What is left is the longest prefix. -/
theorem isBest_plain
    (hexact : (LocationMatcher.new engine patterns).exactLocations.lookup uri = none)
    (hloop : (prefixLoop uri (LocationMatcher.new engine patterns).prefixLocations none).1 = none)
    (hregex : (LocationMatcher.new engine patterns).regexLocations.find?
      (fun location => location.matches engine uri) = none)
    {index : LocationIndex}
    (h : (prefixLoop uri (LocationMatcher.new engine patterns).prefixLocations none).2 =
      some index) :
    ∃ best, IsBest engine (locationsOf engine patterns) uri best ∧
      index = (best.originalOrder, best.matchType) := by
  rw [prefixLoop_snd_new hloop] at h
  obtain ⟨best, hfind, rfl⟩ := Option.map_eq_some_iff.mp h
  obtain ⟨hlocation, hkind⟩ := mem_sortedPrefixes.mp (List.mem_of_find?_eq_some hfind)
  have hfound := List.find?_some hfind
  have hmatchesBest : best.matches engine uri = true := (matches_of_isPrefix hkind).trans hfound
  -- nothing but plain prefixes matches any more
  have hplain : ∀ other ∈ locationsOf engine patterns, other.matches engine uri = true →
      other.matchType = .plainPrefix := by
    intro other hother hmatches
    cases hothertype : other.matchType with
    | exact => exact absurd hothertype (no_exact_of_lookup hexact hother hmatches)
    | preferentialPrefix =>
      exact absurd hothertype (no_preferential_of_loop hloop hother hmatches)
    | regex => exact absurd hothertype (no_regex_of_find hregex hother hmatches)
    | plainPrefix => rfl
  refine ⟨best, ⟨hlocation, hmatchesBest, ?_⟩, rfl⟩
  intro other hother hmatches
  have hothertype := hplain other hother hmatches
  have hotherKind : other.isPrefix = true := by simp [LocationMatch.isPrefix, hothertype]
  rw [matches_of_isPrefix hotherKind] at hmatches
  rcases find?_first pairwise_sortedPrefixes hfind other
    (mem_sortedPrefixes.mpr ⟨hother, hotherKind⟩) hmatches with heq | hprecedes
  · exact .inl heq
  · exact .inr (hprecedes.outranks hkind
      (by rw [hplain best hlocation hmatchesBest, hothertype]))

theorem no_prefix_of_loop
    (hloop : (prefixLoop uri (LocationMatcher.new engine patterns).prefixLocations none).1 = none)
    (h : (prefixLoop uri (LocationMatcher.new engine patterns).prefixLocations none).2 = none)
    {other : LocationMatch ρ} (hother : other ∈ locationsOf engine patterns)
    (hkind : other.isPrefix = true) : other.matches engine uri = false := by
  rw [prefixLoop_snd_new hloop, Option.map_eq_none_iff, List.find?_eq_none] at h
  rw [matches_of_isPrefix hkind]
  exact Bool.eq_false_iff.mpr (h other (mem_sortedPrefixes.mpr ⟨hother, hkind⟩))

/-- Whatever is returned is the best location. -/
theorem isBest_of_matchUri {index : LocationIndex}
    (h : (LocationMatcher.new engine patterns).matchUri engine uri = some index) :
    ∃ best, IsBest engine (locationsOf engine patterns) uri best ∧
      index = (best.originalOrder, best.matchType) := by
  unfold LocationMatcher.matchUri at h
  cases hexact : (LocationMatcher.new engine patterns).exactLocations.lookup uri with
  | some exact =>
    rw [hexact] at h
    obtain rfl := Option.some.inj h
    exact isBest_exact hexact
  | none =>
    rw [hexact] at h
    simp only at h
    split at h
    · next val best hloop =>
      obtain rfl := Option.some.inj h
      exact isBest_preferential hexact (by rw [hloop])
    · next best hloop =>
      split at h
      · next location hregex =>
        obtain rfl := Option.some.inj h
        obtain ⟨hbest, htype⟩ := isBest_regex hexact (by rw [hloop]) hregex
        exact ⟨location, hbest, by rw [htype]⟩
      · next hregex => exact isBest_plain hexact (by rw [hloop]) hregex (by rw [hloop]; exact h)

/-- Nothing is returned only if nothing matches. -/
theorem no_match_of_matchUri
    (h : (LocationMatcher.new engine patterns).matchUri engine uri = none)
    {other : LocationMatch ρ} (hother : other ∈ locationsOf engine patterns) :
    other.matches engine uri = false := by
  unfold LocationMatcher.matchUri at h
  cases hexact : (LocationMatcher.new engine patterns).exactLocations.lookup uri with
  | some exact =>
    rw [hexact] at h
    cases h
  | none =>
    rw [hexact] at h
    simp only at h
    split at h
    · cases h
    · next best hloop =>
      split at h
      · cases h
      · next hregex =>
        rw [Bool.eq_false_iff]
        intro hmatches
        cases hothertype : other.matchType with
        | exact => exact no_exact_of_lookup hexact hother hmatches hothertype
        | regex => exact no_regex_of_find hregex hother hmatches hothertype
        | preferentialPrefix =>
          exact no_preferential_of_loop (by rw [hloop]) hother hmatches hothertype
        | plainPrefix =>
          have hnone := no_prefix_of_loop (by rw [hloop]) (by rw [hloop]; exact h) hother
            (by simp [LocationMatch.isPrefix, hothertype])
          rw [hnone] at hmatches
          cases hmatches

/-- A location stands at the index of its pattern. -/
theorem pattern_of_mem_locationsOf {location : LocationMatch ρ}
    (h : location ∈ locationsOf engine patterns) :
    ∃ pattern, patterns[location.originalOrder]? = some pattern ∧
      LocationMatch.new engine pattern location.originalOrder = some location := by
  obtain ⟨⟨pattern, order⟩, hentry, hnew⟩ := List.mem_filterMap.mp h
  have horder := originalOrder_of_new hnew
  subst horder
  exact ⟨pattern, List.mem_zipIdx_iff_getElem?.mp hentry, hnew⟩

end selection

/-- **The location of a path**: for every list of patterns and every path,
    `match_uri` returns the index and the kind of a location exactly if it is
    the one that outranks all others that match, and the index is that of its
    pattern; it returns nothing exactly if no location matches. -/
theorem match_uri_best (engine : RegexEngine ρ) (patterns : List Str) (uri : Str) :
    (∀ index type, (LocationMatcher.new engine patterns).matchUri engine uri = some (index, type) ↔
      ∃ best pattern, IsBest engine (locationsOf engine patterns) uri best ∧
        patterns[index]? = some pattern ∧ LocationMatch.new engine pattern index = some best ∧
        best.matchType = type) ∧
    ((LocationMatcher.new engine patterns).matchUri engine uri = none ↔
      ∀ location ∈ locationsOf engine patterns, location.matches engine uri = false) := by
  constructor
  · intro index type
    constructor
    · intro h
      obtain ⟨best, hbest, heq⟩ := isBest_of_matchUri h
      obtain ⟨rfl, rfl⟩ := Prod.mk.inj heq
      obtain ⟨pattern, hpattern, hnew⟩ := pattern_of_mem_locationsOf hbest.1
      exact ⟨best, pattern, hbest, hpattern, hnew, rfl⟩
    · intro h
      obtain ⟨best, pattern, hbest, -, hnew, htype⟩ := h
      cases h : (LocationMatcher.new engine patterns).matchUri engine uri with
      | none =>
        have hno := no_match_of_matchUri h hbest.1
        rw [hbest.2.1] at hno
        cases hno
      | some found =>
        obtain ⟨other, hother, rfl⟩ := isBest_of_matchUri h
        rw [hother.unique hbest, htype, originalOrder_of_new hnew]
  · constructor
    · intro h location hlocation
      exact no_match_of_matchUri h hlocation
    · intro hno
      cases h : (LocationMatcher.new engine patterns).matchUri engine uri with
      | none => rfl
      | some found =>
        obtain ⟨best, hbest, -⟩ := isBest_of_matchUri h
        have hmatches := hbest.2.1
        rw [hno best hbest.1] at hmatches
        cases hmatches

end Synvoid.Proxy
