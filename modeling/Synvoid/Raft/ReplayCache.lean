import Mathlib.Data.Finset.Card
import Mathlib.Data.List.MinMax
import Synvoid.Framework.Table
import Synvoid.Framework.Transition

/-! # Replay protection of Raft proposals

    Model of `ReplayProtectionCache` in `raft/state_machine.rs`. The cache
    remembers the pairs of a source node and a nonce that it has let through,
    in a set, and when it did, in a table. A full cache gives up the oldest
    pair; `purge_expired` drops all that are as old as the window.

    The age is an `Instant`, and two pairs may have the same one. The oldest
    of these is the one that the table comes to first, which need not be the
    one that came first: such a pair can be let through again after fewer than
    `max_size` others (`tie_accepted_again`). Counted with the pairs of its own
    instant there are as many (`replay_cache_protects`).
-/

namespace Synvoid.Raft

open Synvoid.Framework

/-! ## Section 1: The cache -/

/-- A source node and a nonce. -/
abbrev ProposalPair := String × UInt64

/-- Instants and durations are in nanoseconds. The order of the table's entries
    is the order in which it is iterated. -/
structure ReplayProtectionCache where
  seenEntries : Finset ProposalPair
  timestamps : Table ProposalPair Nat
  maxSize : Nat
  window : Nat

namespace ReplayProtectionCache

def new (maxSize windowSecs : Nat) : ReplayProtectionCache :=
  { seenEntries := ∅
    timestamps := ∅
    maxSize
    window := windowSecs * 1000000000 }

/-- `min_by_key` takes the first of several oldest entries. -/
def evictOldest (c : ReplayProtectionCache) : ReplayProtectionCache :=
  match c.timestamps.entries.argmin fun e => e.2 with
  | some oldest =>
      { c with
        timestamps := c.timestamps.erase oldest.1
        seenEntries := c.seenEntries.erase oldest.1 }
  | none => c

def makeRoom (c : ReplayProtectionCache) : ReplayProtectionCache :=
  if c.timestamps.entries.length ≥ c.maxSize then c.evictOldest else c

/-- The timestamp of the proposal is not looked at. -/
def checkAndInsert (c : ReplayProtectionCache) (sourceNodeId : String) (_timestamp nonce : UInt64)
    (now : Nat) : Bool × ReplayProtectionCache :=
  let key := (sourceNodeId, nonce)
  if key ∈ c.seenEntries then (false, c)
  else
    let room := c.makeRoom
    (true,
      { room with
        seenEntries := insert key room.seenEntries
        timestamps := room.timestamps.insert key now })

def purgeExpired (c : ReplayProtectionCache) (now : Nat) : ReplayProtectionCache :=
  let timestamps := c.timestamps.traverse fun _ addedAt =>
    if now - addedAt < c.window then some addedAt else none
  { c with
    timestamps
    seenEntries := c.seenEntries.filter fun key => (timestamps.lookup key).isSome }

end ReplayProtectionCache

/-! ## Section 2: Runs -/

/-- A call with its reading of the clock, or a change of the order of
    iteration. -/
inductive ReplayCacheCall where
  | checkAndInsert (sourceNodeId : String) (timestamp nonce : UInt64) (now : Nat)
  | purgeExpired (now : Nat)
  | rehash

/-- The cache and the last reading of the clock. -/
structure ReplayCacheState where
  cache : ReplayProtectionCache
  clock : Nat

/-- Instants never decrease. -/
def replayCacheSystem : System ReplayCacheState ReplayCacheCall where
  init := fun s => ∃ maxSize windowSecs, s.cache = .new maxSize windowSecs
  step := fun s call s' =>
    match call with
    | .checkAndInsert sourceNodeId timestamp nonce now =>
        s.clock ≤ now ∧ s' = ⟨(s.cache.checkAndInsert sourceNodeId timestamp nonce now).2, now⟩
    | .purgeExpired now => s.clock ≤ now ∧ s' = ⟨s.cache.purgeExpired now, now⟩
    | .rehash =>
        s'.clock = s.clock ∧ s.cache.timestamps.Reordered s'.cache.timestamps ∧
          s'.cache = { s.cache with timestamps := s'.cache.timestamps }

abbrev ReplayCacheRun := List (ReplayCacheState × ReplayCacheCall)

/-- The step lets the pair through, at a reading of the clock. -/
def AcceptsAt (step : ReplayCacheState × ReplayCacheCall) (pair : ProposalPair)
    (now : Nat) : Prop :=
  ∃ timestamp, step.2 = .checkAndInsert pair.1 timestamp pair.2 now ∧
    (step.1.cache.checkAndInsert pair.1 timestamp pair.2 now).1 = true

/-- `purge_expired` removes the pair, whose age has reached the window. -/
def PurgedIn (steps : ReplayCacheRun) (pair : ProposalPair) : Prop :=
  ∃ s now addedAt, (s, .purgeExpired now) ∈ steps ∧ s.cache.timestamps.lookup pair = some addedAt ∧
    s.cache.window ≤ now - addedAt

/-- At least `count` different pairs other than `pair` have the property. -/
def ManyOthers (count : Nat) (pair : ProposalPair) (P : ProposalPair → Prop) : Prop :=
  ∃ others : List ProposalPair, others.Nodup ∧ pair ∉ others ∧ count ≤ others.length ∧
    ∀ other ∈ others, P other

/-- The pair is let through by one of the steps. -/
def AcceptedIn (steps : ReplayCacheRun) (pair : ProposalPair) : Prop :=
  ∃ step ∈ steps, ∃ now, AcceptsAt step pair now

/-- The pair is let through by one of the steps `between`, or before them at
    the reading `now`. -/
def AcceptedSince (before between : ReplayCacheRun) (now : Nat) (pair : ProposalPair) : Prop :=
  AcceptedIn between pair ∨ ∃ step ∈ before, AcceptsAt step pair now

/-! ## Section 3: One call -/

namespace ReplayProtectionCache

variable {c : ReplayProtectionCache}

/-- The set is the set of keys of the table. -/
def InStep (c : ReplayProtectionCache) : Prop :=
  ∀ pair, pair ∈ c.seenEntries ↔ (c.timestamps.lookup pair).isSome = true

theorem length_keys (c : ReplayProtectionCache) :
    c.timestamps.keys.length = c.timestamps.entries.length :=
  List.length_map _

theorem InStep.card_eq (h : c.InStep) : c.seenEntries.card = c.timestamps.entries.length := by
  have hset : c.seenEntries = c.timestamps.keys.toFinset := by
    ext pair
    rw [h, AList.lookup_isSome, List.mem_toFinset]
    rfl
  rw [hset, List.toFinset_card_of_nodup c.timestamps.keys_nodup, length_keys]

/-- A cache that is not empty has an oldest entry. -/
theorem evictOldest_eq (hpos : 0 < c.timestamps.entries.length) :
    ∃ pair addedAt, c.timestamps.lookup pair = some addedAt ∧
      (∀ other t, c.timestamps.lookup other = some t → addedAt ≤ t) ∧
      c.evictOldest =
        { c with
          timestamps := c.timestamps.erase pair
          seenEntries := c.seenEntries.erase pair } := by
  have hne : c.timestamps.entries ≠ [] := List.length_pos_iff.mp hpos
  unfold evictOldest
  rcases hmin : c.timestamps.entries.argmin fun e => e.2 with _ | ⟨pair, addedAt⟩
  · exact absurd (List.argmin_eq_none.mp hmin) hne
  · refine ⟨pair, addedAt, AList.mem_lookup_iff.mpr (List.argmin_mem hmin), ?_, by rw [hmin]⟩
    intro other t hother
    exact List.le_of_mem_argmin (AList.mem_lookup_iff.mp hother) hmin

/-- Room for one more pair: the cache as it is, or without an oldest pair. -/
theorem makeRoom_cases (hmax : 1 ≤ c.maxSize) :
    c.makeRoom = c ∧ c.timestamps.entries.length < c.maxSize ∨
      ∃ pair addedAt, c.timestamps.lookup pair = some addedAt ∧
        (∀ other t, c.timestamps.lookup other = some t → addedAt ≤ t) ∧
        c.maxSize ≤ c.timestamps.entries.length ∧
        c.makeRoom =
          { c with
            timestamps := c.timestamps.erase pair
            seenEntries := c.seenEntries.erase pair } := by
  unfold makeRoom
  split
  · next hfull =>
    obtain ⟨pair, addedAt, hlookup, hmin, heq⟩ := evictOldest_eq (c := c) (by omega)
    exact Or.inr ⟨pair, addedAt, hlookup, hmin, hfull, heq⟩
  · next hroom => exact Or.inl ⟨rfl, by omega⟩

theorem InStep.erase (h : c.InStep) (pair : ProposalPair) :
    InStep { c with
      timestamps := c.timestamps.erase pair
      seenEntries := c.seenEntries.erase pair } := by
  intro other
  simp only [Finset.mem_erase, Table.lookup_erase_eq]
  by_cases hother : other = pair
  · simp [hother]
  · simp [hother, h other]

theorem InStep.makeRoom (h : c.InStep) (hmax : 1 ≤ c.maxSize) : c.makeRoom.InStep := by
  rcases makeRoom_cases hmax with ⟨heq, -⟩ | ⟨pair, addedAt, -, -, -, heq⟩
  · rw [heq]
    exact h
  · rw [heq]
    exact h.erase pair

theorem length_makeRoom (hmax : 1 ≤ c.maxSize) (hle : c.timestamps.entries.length ≤ c.maxSize) :
    c.makeRoom.timestamps.entries.length < c.maxSize := by
  rcases makeRoom_cases hmax with ⟨heq, hlt⟩ | ⟨pair, addedAt, hlookup, -, hfull, heq⟩
  · rw [heq]
    exact hlt
  · have hlength := Table.length_erase (t := c.timestamps) (k := pair) (by rw [hlookup]; rfl)
    rw [heq]
    simp only
    omega

theorem maxSize_makeRoom (c : ReplayProtectionCache) : c.makeRoom.maxSize = c.maxSize := by
  unfold makeRoom evictOldest
  split
  · split
    · rfl
    · rfl
  · rfl

variable {sourceNodeId : String} {timestamp nonce : UInt64} {now : Nat}

theorem checkAndInsert_fst : (c.checkAndInsert sourceNodeId timestamp nonce now).1 = true ↔
    (sourceNodeId, nonce) ∉ c.seenEntries := by
  unfold checkAndInsert
  by_cases h : (sourceNodeId, nonce) ∈ c.seenEntries
  · simp [h]
  · simp [h]

theorem checkAndInsert_known (h : (sourceNodeId, nonce) ∈ c.seenEntries) :
    (c.checkAndInsert sourceNodeId timestamp nonce now).2 = c := by
  unfold checkAndInsert
  simp only
  rw [if_pos h]

theorem checkAndInsert_new (h : (sourceNodeId, nonce) ∉ c.seenEntries) :
    (c.checkAndInsert sourceNodeId timestamp nonce now).2 =
      { c.makeRoom with
        seenEntries := insert (sourceNodeId, nonce) c.makeRoom.seenEntries
        timestamps := c.makeRoom.timestamps.insert (sourceNodeId, nonce) now } := by
  unfold checkAndInsert
  simp only
  rw [if_neg h]

theorem lookup_purgeExpired (c : ReplayProtectionCache) (now : Nat) (pair : ProposalPair) :
    (c.purgeExpired now).timestamps.lookup pair =
      (c.timestamps.lookup pair).bind fun addedAt =>
        if now - addedAt < c.window then some addedAt else none :=
  Table.lookup_traverse _ _ pair

theorem InStep.purgeExpired (h : c.InStep) (now : Nat) : (c.purgeExpired now).InStep := by
  intro pair
  constructor
  · intro hmem
    exact (Finset.mem_filter.mp hmem).2
  · intro hsome
    refine Finset.mem_filter.mpr ⟨?_, hsome⟩
    rw [lookup_purgeExpired] at hsome
    rw [h]
    cases hlookup : c.timestamps.lookup pair with
    | none => simp [hlookup] at hsome
    | some addedAt => rfl

end ReplayProtectionCache

/-- What holds of the cache at all times. -/
structure CacheInv (c : ReplayProtectionCache) : Prop where
  inStep : c.InStep
  size_le : c.timestamps.entries.length ≤ c.maxSize
  max_pos : 1 ≤ c.maxSize

section step
variable {s s' : ReplayCacheState} {call : ReplayCacheCall}

theorem maxSize_step (h : replayCacheSystem.step s call s') :
    s'.cache.maxSize = s.cache.maxSize := by
  cases call with
  | checkAndInsert sourceNodeId timestamp nonce now =>
    obtain ⟨-, rfl⟩ := h
    by_cases hseen : (sourceNodeId, nonce) ∈ s.cache.seenEntries
    · exact congrArg _ (ReplayProtectionCache.checkAndInsert_known hseen)
    · exact (congrArg _ (ReplayProtectionCache.checkAndInsert_new hseen)).trans
        s.cache.maxSize_makeRoom
  | purgeExpired now =>
    obtain ⟨-, rfl⟩ := h
    rfl
  | rehash =>
    obtain ⟨-, -, hcache⟩ := h
    rw [hcache]

theorem CacheInv.step (hs : CacheInv s.cache) (h : replayCacheSystem.step s call s') :
    CacheInv s'.cache := by
  have hmax := maxSize_step h
  refine ⟨?_, ?_, hmax ▸ hs.max_pos⟩
  · cases call with
    | checkAndInsert sourceNodeId timestamp nonce now =>
      obtain ⟨-, rfl⟩ := h
      by_cases hseen : (sourceNodeId, nonce) ∈ s.cache.seenEntries
      · rw [ReplayProtectionCache.checkAndInsert_known hseen]
        exact hs.inStep
      · rw [ReplayProtectionCache.checkAndInsert_new hseen]
        intro pair
        have hroom := hs.inStep.makeRoom hs.max_pos pair
        simp only [Finset.mem_insert, Table.lookup_insert_eq]
        by_cases hpair : pair = (sourceNodeId, nonce)
        · simp [hpair]
        · simp [hpair, hroom]
    | purgeExpired now =>
      obtain ⟨-, rfl⟩ := h
      exact hs.inStep.purgeExpired now
    | rehash =>
      obtain ⟨-, hperm, hcache⟩ := h
      intro pair
      rw [hperm.lookup, hcache]
      exact hs.inStep pair
  · rw [hmax]
    cases call with
    | checkAndInsert sourceNodeId timestamp nonce now =>
      obtain ⟨-, rfl⟩ := h
      by_cases hseen : (sourceNodeId, nonce) ∈ s.cache.seenEntries
      · rw [ReplayProtectionCache.checkAndInsert_known hseen]
        exact hs.size_le
      · rw [ReplayProtectionCache.checkAndInsert_new hseen]
        have hroom := ReplayProtectionCache.length_makeRoom hs.max_pos hs.size_le
        simp only [Table.length_insert]
        split
        · exact hroom.le
        · exact hroom
    | purgeExpired now =>
      obtain ⟨-, rfl⟩ := h
      exact (List.length_filterMap_le _ _).trans hs.size_le
    | rehash =>
      obtain ⟨-, hperm, -⟩ := h
      rw [← hperm.length_eq]
      exact hs.size_le

/-- A pair leaves the cache as an oldest one, for a new pair, or because of its
    age. -/
theorem CacheInv.lookup_step (hs : CacheInv s.cache) (h : replayCacheSystem.step s call s')
    {pair : ProposalPair} {addedAt : Nat} (hpair : s.cache.timestamps.lookup pair = some addedAt) :
    s'.cache.timestamps.lookup pair = some addedAt ∨
      (s.cache.maxSize ≤ s.cache.timestamps.entries.length ∧
        (∀ other t, s.cache.timestamps.lookup other = some t → addedAt ≤ t) ∧
        ∃ newPair now, AcceptsAt (s, call) newPair now ∧ s.cache.timestamps.lookup newPair = none) ∨
      ∃ now, call = .purgeExpired now ∧ s.cache.window ≤ now - addedAt := by
  cases call with
  | checkAndInsert sourceNodeId timestamp nonce now =>
    obtain ⟨-, rfl⟩ := h
    by_cases hseen : (sourceNodeId, nonce) ∈ s.cache.seenEntries
    · rw [ReplayProtectionCache.checkAndInsert_known hseen]
      exact Or.inl hpair
    · have hnew : s.cache.timestamps.lookup (sourceNodeId, nonce) = none := by
        rw [← Option.not_isSome_iff_eq_none]
        exact fun hsome => hseen ((hs.inStep _).mpr hsome)
      have hother : pair ≠ (sourceNodeId, nonce) := by
        rintro rfl
        rw [hpair] at hnew
        cases hnew
      rw [ReplayProtectionCache.checkAndInsert_new hseen]
      simp only [Table.lookup_insert_eq, if_neg hother]
      rcases ReplayProtectionCache.makeRoom_cases hs.max_pos with ⟨heq, -⟩ |
        ⟨oldest, t, holdest, hmin, hfull, heq⟩
      · rw [heq]
        exact Or.inl hpair
      · rw [heq]
        simp only [Table.lookup_erase_eq]
        by_cases hgone : pair = oldest
        · subst hgone
          obtain rfl : addedAt = t := Option.some.inj (hpair.symm.trans holdest)
          exact Or.inr (Or.inl ⟨hfull, hmin, (sourceNodeId, nonce), now,
            ⟨timestamp, rfl, ReplayProtectionCache.checkAndInsert_fst.mpr hseen⟩, hnew⟩)
        · rw [if_neg hgone]
          exact Or.inl hpair
  | purgeExpired now =>
    obtain ⟨-, rfl⟩ := h
    rw [ReplayProtectionCache.lookup_purgeExpired, hpair, Option.bind_some]
    split
    · exact Or.inl rfl
    · next hold => exact Or.inr (Or.inr ⟨now, rfl, not_lt.mp hold⟩)
  | rehash =>
    obtain ⟨-, hperm, -⟩ := h
    rw [hperm.lookup]
    exact Or.inl hpair

/-- What is in the cache was there or is let through now. -/
theorem CacheInv.of_lookup_step (hs : CacheInv s.cache) (h : replayCacheSystem.step s call s')
    {pair : ProposalPair} {t : Nat} (hpair : s'.cache.timestamps.lookup pair = some t) :
    s.cache.timestamps.lookup pair = some t ∨ AcceptsAt (s, call) pair t := by
  cases call with
  | checkAndInsert sourceNodeId timestamp nonce now =>
    obtain ⟨-, rfl⟩ := h
    by_cases hseen : (sourceNodeId, nonce) ∈ s.cache.seenEntries
    · rw [ReplayProtectionCache.checkAndInsert_known hseen] at hpair
      exact Or.inl hpair
    · rw [ReplayProtectionCache.checkAndInsert_new hseen] at hpair
      simp only [Table.lookup_insert_eq] at hpair
      split at hpair
      · next heq =>
        obtain rfl := Option.some.inj hpair
        subst heq
        exact Or.inr ⟨timestamp, rfl, ReplayProtectionCache.checkAndInsert_fst.mpr hseen⟩
      · rcases ReplayProtectionCache.makeRoom_cases hs.max_pos with ⟨heq, -⟩ |
          ⟨oldest, -, -, -, -, heq⟩
        · rw [heq] at hpair
          exact Or.inl hpair
        · rw [heq] at hpair
          simp only [Table.lookup_erase_eq] at hpair
          split at hpair
          · cases hpair
          · exact Or.inl hpair
  | purgeExpired now =>
    obtain ⟨-, rfl⟩ := h
    rw [ReplayProtectionCache.lookup_purgeExpired] at hpair
    obtain ⟨addedAt, hlookup, hkept⟩ := Option.bind_eq_some_iff.mp hpair
    split at hkept
    · obtain rfl := Option.some.inj hkept
      exact Or.inl hlookup
    · cases hkept
  | rehash =>
    obtain ⟨-, hperm, -⟩ := h
    rw [hperm.lookup] at hpair
    exact Or.inl hpair

/-- What is let through is in the cache then. -/
theorem lookup_of_accepts (h : replayCacheSystem.step s call s') {pair : ProposalPair} {now : Nat}
    (haccepts : AcceptsAt (s, call) pair now) :
    s'.cache.timestamps.lookup pair = some now ∧ s.clock ≤ now ∧ s'.clock = now := by
  obtain ⟨timestamp, hcall, hfresh⟩ := haccepts
  obtain rfl : call = .checkAndInsert pair.1 timestamp pair.2 now := hcall
  obtain ⟨hclock, rfl⟩ := h
  rw [ReplayProtectionCache.checkAndInsert_new (ReplayProtectionCache.checkAndInsert_fst.mp hfresh)]
  exact ⟨by simp, hclock, rfl⟩

theorem clock_step (h : replayCacheSystem.step s call s') : s.clock ≤ s'.clock := by
  cases call with
  | checkAndInsert => obtain ⟨hle, rfl⟩ := h; exact hle
  | purgeExpired => obtain ⟨hle, rfl⟩ := h; exact hle
  | rehash => exact h.1.ge

end step

/-! ## Section 4: Whole runs -/

/-- A place in a run that is longer by one: at the end, or a place before. -/
theorem split_snoc {α : Type} {tr before between : List α} {x y : α}
    (h : tr ++ [x] = before ++ y :: between) :
    between = [] ∧ before = tr ∧ y = x ∨
      ∃ between', between = between' ++ [x] ∧ tr = before ++ y :: between' := by
  rcases List.eq_nil_or_concat between with rfl | ⟨between', z, rfl⟩
  · obtain ⟨rfl, hlast⟩ := List.append_inj' h rfl
    exact Or.inl ⟨rfl, rfl, (List.cons.inj hlast).1.symm⟩
  · rw [List.concat_eq_append, ← List.cons_append, ← List.append_assoc] at h
    obtain ⟨htr, hlast⟩ := List.append_inj' h rfl
    obtain rfl := (List.cons.inj hlast).1
    exact Or.inr ⟨between', List.concat_eq_append, htr⟩

theorem PurgedIn.mono {steps more : ReplayCacheRun} {pair : ProposalPair}
    (h : PurgedIn steps pair) :
    PurgedIn (steps ++ more) pair := by
  obtain ⟨s, now, addedAt, hmem, hold⟩ := h
  exact ⟨s, now, addedAt, List.mem_append_left _ hmem, hold⟩

theorem AcceptedIn.mono {steps more : ReplayCacheRun} {pair : ProposalPair}
    (h : AcceptedIn steps pair) : AcceptedIn (steps ++ more) pair := by
  obtain ⟨step, hmem, haccepts⟩ := h
  exact ⟨step, List.mem_append_left _ hmem, haccepts⟩

theorem ManyOthers.imp {count : Nat} {pair : ProposalPair} {P Q : ProposalPair → Prop}
    (h : ManyOthers count pair P) (himp : ∀ other, P other → Q other) :
    ManyOthers count pair Q := by
  obtain ⟨others, hnodup, hnot, hcount, hall⟩ := h
  exact ⟨others, hnodup, hnot, hcount, fun other hmem => himp other (hall other hmem)⟩

/-- What a run says about the cache that it leads to. -/
structure RunInv (tr : ReplayCacheRun) (s : ReplayCacheState) : Prop where
  cache : CacheInv s.cache
  readings : ∀ step ∈ tr, ∀ pair now, AcceptsAt step pair now → now ≤ s.clock
  entries : ∀ pair t, s.cache.timestamps.lookup pair = some t → ∃ step ∈ tr, AcceptsAt step pair t
  ordered : ∀ before step between, tr = before ++ step :: between →
    ∀ earlier ∈ before, ∀ pair now pair' now', AcceptsAt earlier pair now →
      AcceptsAt step pair' now' → now ≤ now'
  remembered : ∀ before step between pair now, tr = before ++ step :: between →
    AcceptsAt step pair now →
      (∃ addedAt, now ≤ addedAt ∧ s.cache.timestamps.lookup pair = some addedAt) ∨
      PurgedIn between pair ∨
      ManyOthers s.cache.maxSize pair (AcceptedSince before between now)

theorem AcceptsAt.unique {step : ReplayCacheState × ReplayCacheCall} {pair pair' : ProposalPair}
    {now now' : Nat} (h : AcceptsAt step pair now) (h' : AcceptsAt step pair' now') :
    pair = pair' := by
  obtain ⟨timestamp, hcall, -⟩ := h
  obtain ⟨timestamp', hcall', -⟩ := h'
  rw [hcall] at hcall'
  injection hcall' with hnode _ hnonce _
  exact Prod.ext hnode hnonce

section run
variable {tr : ReplayCacheRun} {s s' : ReplayCacheState} {call : ReplayCacheCall}

/-- When an oldest pair is given up, the others in the cache and the new one
    came in between, or at its instant. -/
theorem RunInv.manyOthers (h : RunInv tr s) {before between : ReplayCacheRun}
    {step : ReplayCacheState × ReplayCacheCall} {pair newPair : ProposalPair}
    {now addedAt newNow : Nat}
    (htr : tr = before ++ step :: between) (haccepts : AcceptsAt step pair now)
    (hpair : s.cache.timestamps.lookup pair = some addedAt) (hle : now ≤ addedAt)
    (hfull : s.cache.maxSize ≤ s.cache.timestamps.entries.length)
    (hmin : ∀ other t, s.cache.timestamps.lookup other = some t → addedAt ≤ t)
    (hnew : AcceptsAt (s, call) newPair newNow)
    (hfresh : s.cache.timestamps.lookup newPair = none) :
    ManyOthers s.cache.maxSize pair (AcceptedSince before (between ++ [(s, call)]) now) := by
  have hmem : ∀ other, other ∈ s.cache.timestamps.keys ↔
      (s.cache.timestamps.lookup other).isSome = true := fun other => AList.lookup_isSome.symm
  have hpairMem : pair ∈ s.cache.timestamps.keys := (hmem pair).mpr (by rw [hpair]; rfl)
  have hnewMem : newPair ∉ s.cache.timestamps.keys := by
    rw [hmem, hfresh]
    simp
  refine ⟨newPair :: s.cache.timestamps.keys.erase pair, ?_, ?_, ?_, ?_⟩
  · refine List.nodup_cons.mpr ⟨fun h => hnewMem (List.mem_of_mem_erase h), ?_⟩
    exact s.cache.timestamps.keys_nodup.erase pair
  · rw [List.mem_cons]
    rintro (rfl | hin)
    · exact hnewMem hpairMem
    · exact s.cache.timestamps.keys_nodup.not_mem_erase hin
  · have hlength := List.length_erase_add_one hpairMem
    rw [List.length_cons, hlength, s.cache.length_keys]
    exact hfull
  · intro other hother
    rcases List.mem_cons.mp hother with rfl | hother
    · exact Or.inl ⟨(s, call), List.mem_append_right _ (List.mem_singleton_self _), newNow, hnew⟩
    · have hne : other ≠ pair := by
        rintro rfl
        exact s.cache.timestamps.keys_nodup.not_mem_erase hother
      obtain ⟨t, ht⟩ := Option.isSome_iff_exists.mp ((hmem other).mp (List.mem_of_mem_erase hother))
      obtain ⟨earlier, hearlier, hotherAt⟩ := h.entries other t ht
      have hge : now ≤ t := hle.trans (hmin other t ht)
      rw [htr] at hearlier
      rcases List.mem_append.mp hearlier with hbefore | hlater
      · -- it came before, so its reading is the same
        have hle' :=
          h.ordered before step between htr earlier hbefore other t pair now hotherAt haccepts
        obtain rfl : t = now := Nat.le_antisymm hle' hge
        exact Or.inr ⟨earlier, hbefore, hotherAt⟩
      · rcases List.mem_cons.mp hlater with rfl | hlater
        · exact absurd (hotherAt.unique haccepts) hne
        · exact Or.inl ⟨earlier, List.mem_append_left _ hlater, t, hotherAt⟩

theorem RunInv.step (h : RunInv tr s) (hstep : replayCacheSystem.step s call s') :
    RunInv (tr ++ [(s, call)]) s' := by
  have hclock := clock_step hstep
  refine ⟨h.cache.step hstep, ?_, ?_, ?_, ?_⟩
  · intro step hmem pair now haccepts
    rcases List.mem_append.mp hmem with hmem | hmem
    · exact (h.readings step hmem pair now haccepts).trans hclock
    · obtain rfl := List.mem_singleton.mp hmem
      exact (lookup_of_accepts hstep haccepts).2.2.ge
  · intro pair t hpair
    rcases h.cache.of_lookup_step hstep hpair with hold | hnew
    · obtain ⟨step, hmem, haccepts⟩ := h.entries pair t hold
      exact ⟨step, List.mem_append_left _ hmem, haccepts⟩
    · exact ⟨(s, call), List.mem_append_right _ (List.mem_singleton_self _), hnew⟩
  · intro before step between htr earlier hearlier pair now pair' now' haccepts haccepts'
    rcases split_snoc htr with ⟨-, rfl, rfl⟩ | ⟨between', -, htr'⟩
    · exact (h.readings earlier hearlier pair now haccepts).trans
        (lookup_of_accepts hstep haccepts').2.1
    · exact h.ordered before step between' htr' earlier hearlier pair now pair' now'
        haccepts haccepts'
  · intro before step between pair now htr haccepts
    rcases split_snoc htr with ⟨-, -, rfl⟩ | ⟨between', rfl, htr'⟩
    · exact Or.inl ⟨now, le_rfl, (lookup_of_accepts hstep haccepts).1⟩
    · have hsince : ∀ other, AcceptedSince before between' now other →
          AcceptedSince before (between' ++ [(s, call)]) now other :=
        fun other => Or.imp_left AcceptedIn.mono
      rw [maxSize_step hstep]
      rcases h.remembered before step between' pair now htr' haccepts with
        ⟨addedAt, hle, hpair⟩ | hpurged | hmany
      · rcases h.cache.lookup_step hstep hpair with
          hkept | ⟨hfull, hmin, newPair, newNow, hnew, hfresh⟩ | ⟨purgeNow, rfl, hold⟩
        · exact Or.inl ⟨addedAt, hle, hkept⟩
        · exact Or.inr (Or.inr
            (h.manyOthers htr' haccepts hpair hle hfull hmin hnew hfresh))
        · exact Or.inr (Or.inl ⟨s, purgeNow, addedAt,
            List.mem_append_right _ (List.mem_singleton_self _), hpair, hold⟩)
      · exact Or.inr (Or.inl hpurged.mono)
      · exact Or.inr (Or.inr (hmany.imp hsince))

theorem RunInv.init (h : replayCacheSystem.init s) (hmax : 1 ≤ s.cache.maxSize) : RunInv [] s := by
  obtain ⟨maxSize, windowSecs, hcache⟩ := h
  refine ⟨⟨?_, ?_, hmax⟩, ?_, ?_, ?_, ?_⟩
  · rw [hcache]
    intro pair
    simp [ReplayProtectionCache.new]
  · rw [hcache]
    exact Nat.zero_le _
  · intro step hmem
    cases hmem
  · intro pair t hpair
    rw [hcache] at hpair
    simp [ReplayProtectionCache.new] at hpair
  · intro before step between htr
    simp at htr
  · intro before step between pair now htr
    simp at htr

theorem runInv (h : replayCacheSystem.Exec tr s) (hmax : 1 ≤ s.cache.maxSize) : RunInv tr s := by
  revert hmax
  refine System.Exec.history (fun tr s => 1 ≤ s.cache.maxSize → RunInv tr s) ?_ ?_ h
  · intro s hs hmax
    exact RunInv.init hs hmax
  · intro tr s call s' ih hstep hmax
    rw [maxSize_step hstep] at hmax
    exact (ih hmax).step hstep

theorem maxSize_before {before after : ReplayCacheRun} {s₁ : ReplayCacheState}
    (h : replayCacheSystem.Exec (before ++ (s₁, call) :: after) s) :
    s₁.cache.maxSize = s.cache.maxSize := by
  have hall : ∀ step ∈ before ++ (s₁, call) :: after, step.1.cache.maxSize = s.cache.maxSize := by
    refine System.Exec.history
      (fun tr s => ∀ step ∈ tr, step.1.cache.maxSize = s.cache.maxSize) ?_ ?_ h
    · intro s _ step hmem
      cases hmem
    · intro tr s call s' ih hstep step hmem
      rw [maxSize_step hstep]
      rcases List.mem_append.mp hmem with hmem | hmem
      · exact ih step hmem
      · rw [List.mem_singleton.mp hmem]
  exact hall (s₁, call) (by simp)

end run

/-- **Replay protection.** The set and the table of the cache have the same
    pairs, not more than `max_size`. A pair that was let through is let through
    again only after it was purged for its age, or after `max_size` others were
    let through since then, those of the same instant included. -/
theorem replay_cache_protects {tr : ReplayCacheRun} {s : ReplayCacheState}
    (h : replayCacheSystem.Exec tr s) (hmax : 1 ≤ s.cache.maxSize) :
    (∀ pair, pair ∈ s.cache.seenEntries ↔ (s.cache.timestamps.lookup pair).isSome = true) ∧
    s.cache.seenEntries.card ≤ s.cache.maxSize ∧
    ∀ before first between again after pair now now',
      tr = before ++ first :: between ++ again :: after →
      AcceptsAt first pair now → AcceptsAt again pair now' →
      PurgedIn between pair ∨
        ManyOthers s.cache.maxSize pair (AcceptedSince before between now) := by
  have hinv := runInv h hmax
  refine ⟨hinv.cache.inStep, ?_, ?_⟩
  · rw [hinv.cache.inStep.card_eq]
    exact hinv.cache.size_le
  · rintro before first between ⟨s₁, call⟩ after pair now now' rfl hfirst hagain
    have hsize := maxSize_before h
    have hbefore := runInv h.before (by rw [hsize]; exact hmax)
    obtain ⟨timestamp, -, hfresh⟩ := hagain
    have hunseen := ReplayProtectionCache.checkAndInsert_fst.mp hfresh
    rcases hbefore.remembered before first between pair now rfl hfirst with
      ⟨addedAt, -, hlookup⟩ | hpurged | hmany
    · -- what is in the cache is not let through
      exact absurd ((hbefore.cache.inStep pair).mpr (by rw [hlookup]; rfl)) hunseen
    · exact Or.inl hpurged
    · rw [hsize] at hmany
      exact Or.inr hmany

/-! ### Three pairs of one instant -/

def proposalCall (sourceNodeId : String) (nonce : UInt64) : ReplayCacheCall :=
  .checkAndInsert sourceNodeId 1000 nonce 0

/-- A cache for two pairs after some proposals of the instant 0. -/
def cacheAfter (proposals : List ProposalPair) : ReplayCacheState :=
  ⟨proposals.foldl (fun c pair => (c.checkAndInsert pair.1 1000 pair.2 0).2) (.new 2 300), 0⟩

theorem cacheAfter_step (proposals : List ProposalPair) (pair : ProposalPair) :
    replayCacheSystem.step (cacheAfter proposals) (proposalCall pair.1 pair.2)
      (cacheAfter (proposals ++ [pair])) := by
  refine ⟨le_rfl, ?_⟩
  unfold cacheAfter
  rw [List.foldl_append]
  rfl

def stepA : ReplayCacheState × ReplayCacheCall := (cacheAfter [], proposalCall "a" 1)
def stepB : ReplayCacheState × ReplayCacheCall := (cacheAfter [("a", 1)], proposalCall "b" 2)
def stepC : ReplayCacheState × ReplayCacheCall :=
  (cacheAfter [("a", 1), ("b", 2)], proposalCall "c" 3)
def stepBAgain : ReplayCacheState × ReplayCacheCall :=
  (cacheAfter [("a", 1), ("b", 2), ("c", 3)], proposalCall "b" 2)

theorem exec_tie : replayCacheSystem.Exec ([stepA] ++ stepB :: [stepC] ++ stepBAgain :: [])
    (cacheAfter [("a", 1), ("b", 2), ("c", 3), ("b", 2)]) := by
  have hstart : replayCacheSystem.Exec [] (cacheAfter []) := .nil ⟨2, 300, rfl⟩
  exact (((hstart.snoc (cacheAfter_step [] ("a", 1))).snoc (cacheAfter_step _ ("b", 2))).snoc
    (cacheAfter_step _ ("c", 3))).snoc (cacheAfter_step _ ("b", 2))

theorem accepts_stepB : AcceptsAt stepB ("b", 2) 0 := ⟨1000, rfl, by decide⟩

theorem accepts_stepBAgain : AcceptsAt stepBAgain ("b", 2) 0 := ⟨1000, rfl, by decide⟩

theorem not_purged_stepC : ¬ PurgedIn [stepC] ("b", 2) := by
  rintro ⟨s, now, addedAt, hmem, -⟩
  cases List.mem_singleton.mp hmem

/-- The pair `a`, which came before `b` at the same instant, counts. -/
theorem same_instant_counts : ManyOthers 2 ("b", 2) (AcceptedSince [stepA] [stepC] 0) :=
  ((replay_cache_protects exec_tie (by decide)).2.2 [stepA] stepB [stepC] stepBAgain [] _ 0 0 rfl
    accepts_stepB accepts_stepBAgain).resolve_left not_purged_stepC

/-- A cache for two pairs lets `b` through again when one other pair has come
    in between. -/
theorem tie_accepted_again :
    ¬ ∀ tr s, replayCacheSystem.Exec tr s → 1 ≤ s.cache.maxSize →
      ∀ before first between again after pair now now',
        tr = before ++ first :: between ++ again :: after →
        AcceptsAt first pair now → AcceptsAt again pair now' →
        PurgedIn between pair ∨ ManyOthers s.cache.maxSize pair (AcceptedIn between) := by
  intro hall
  rcases hall _ _ exec_tie (by decide) [stepA] stepB [stepC] stepBAgain [] ("b", 2) 0 0 rfl
    accepts_stepB accepts_stepBAgain with hpurged | ⟨others, hnodup, -, hcount, hothers⟩
  · exact not_purged_stepC hpurged
  · -- only `c` came in between
    have haccepted : AcceptsAt stepC ("c", 3) 0 := ⟨1000, rfl, by decide⟩
    have honly : ∀ other ∈ others, other = ("c", 3) := by
      intro other hmem
      obtain ⟨step, hstep, now, haccepts⟩ := hothers other hmem
      obtain rfl := List.mem_singleton.mp hstep
      exact haccepts.unique haccepted
    have hle :=
      (hnodup.subperm fun other hmem => List.mem_singleton.mpr (honly other hmem)).length_le
    have hmax : (cacheAfter [("a", 1), ("b", 2), ("c", 3), ("b", 2)]).cache.maxSize = 2 := by decide
    rw [hmax] at hcount
    rw [List.length_singleton] at hle
    omega

end Synvoid.Raft
