import Synvoid.Framework.RustStr
import Synvoid.Framework.Transition

/-! # Replay protection of mesh messages

    `ReplayProtection` remembers the nonce and the timestamp of every message
    that it has let through. A full set loses a quarter of its entries before
    the next one is added, and these are the first of an unordered set, not
    the oldest. An entry is never dropped because of its age.

    So a run with few messages inside the window can still lose one of them
    and let it through again (`fresh_pair_valid_twice`). If every entry that is
    dropped has expired by then, no pair is let through twice
    (`replay_protected`).
-/

namespace Synvoid.Mesh

open Synvoid.Framework

/-! ## Section 1: The set of nonces -/

def replayWindowSecs : Nat := 60

def maxReplayCacheSize : Nat := 10000

inductive ReplayResult where
  | valid
  | replayDetected
  | expiredTimestamp
  | futureTimestamp
  deriving DecidableEq

/-- A hash set. The order of the list is the order in which it is iterated. -/
structure ReplayProtection where
  seenNonces : List Str
  nodup : seenNonces.Nodup

def nonceKey (timestamp : Nat) (nonce : Str) : Str := decimal timestamp ++ ':' :: nonce

namespace ReplayProtection

def new : ReplayProtection := ⟨[], List.nodup_nil⟩

/-- A full set without the first quarter of its entries. -/
def makeRoom (r : ReplayProtection) : ReplayProtection :=
  if r.seenNonces.length ≥ maxReplayCacheSize then
    ⟨r.seenNonces.drop (r.seenNonces.length / 4), r.nodup.sublist (List.drop_sublist _ _)⟩
  else r

theorem subset_of_makeRoom (r : ReplayProtection) : r.makeRoom.seenNonces ⊆ r.seenNonces := by
  unfold makeRoom
  split
  · exact List.drop_subset _ _
  · exact List.Subset.refl _

def insert (r : ReplayProtection) (key : Str) (h : key ∉ r.seenNonces) : ReplayProtection :=
  ⟨key :: r.seenNonces, List.nodup_cons.mpr ⟨h, r.nodup⟩⟩

def checkAndAddAt (r : ReplayProtection) (nonce : Str) (timestamp now : Nat) :
    ReplayResult × ReplayProtection :=
  if timestamp - now > replayWindowSecs then (.futureTimestamp, r)
  else if now - timestamp > replayWindowSecs then (.expiredTimestamp, r)
  else if h : nonceKey timestamp nonce ∈ r.seenNonces then (.replayDetected, r)
  else
    (.valid, r.makeRoom.insert (nonceKey timestamp nonce) fun hmem => h (r.subset_of_makeRoom hmem))

end ReplayProtection

/-! ## Section 2: Runs -/

structure ReplayCheck where
  nonce : Str
  timestamp : Nat
  now : Nat

/-- A check, or a change of the order of iteration. -/
inductive ReplayLabel where
  | check (c : ReplayCheck)
  | rehash

def replaySystem : System ReplayProtection ReplayLabel where
  init := fun r => r = .new
  step := fun r l r' =>
    match l with
    | .check c => r' = (r.checkAndAddAt c.nonce c.timestamp c.now).2
    | .rehash => r.seenNonces.Perm r'.seenNonces

abbrev ReplayRun := List (ReplayProtection × ReplayLabel)

def ReplayLabel.check? : ReplayLabel → Option ReplayCheck
  | .check c => some c
  | .rehash => none

def checksOf (tr : ReplayRun) : List ReplayCheck := tr.filterMap fun step => step.2.check?

/-- The clock of the checks does not run backwards. -/
def NondecreasingNow (tr : ReplayRun) : Prop :=
  (checksOf tr).Pairwise fun c c' => c.now ≤ c'.now

/-- The pair that a step lets through. -/
def acceptedPair : ReplayProtection × ReplayLabel → Option (Str × Nat)
  | (r, .check c) =>
      if (r.checkAndAddAt c.nonce c.timestamp c.now).1 = .valid then some (c.nonce, c.timestamp)
      else none
  | (_, .rehash) => none

/-- The pairs that were answered `Valid`, as often as they were. -/
def acceptedPairs (tr : ReplayRun) : List (Str × Nat) := tr.filterMap acceptedPair

/-- The timestamp is inside the window around `now`. -/
def InWindow (timestamp now : Nat) : Prop :=
  timestamp - now ≤ replayWindowSecs ∧ now - timestamp ≤ replayWindowSecs

instance (timestamp now : Nat) : Decidable (InWindow timestamp now) :=
  inferInstanceAs (Decidable (_ ∧ _))

/-- At the time of each check there is room for the accepted pairs that are
    inside the window then. -/
def WindowFits (tr : ReplayRun) : Prop :=
  ∀ c ∈ checksOf tr,
    ((acceptedPairs tr).countP fun p => InWindow p.2 c.now) ≤ maxReplayCacheSize - 1

/-- If a step adds a pair to a full set, then the first quarter of the set has
    expired. -/
def DropsExpired : ReplayProtection × ReplayLabel → Prop
  | (r, .check c) =>
      InWindow c.timestamp c.now → nonceKey c.timestamp c.nonce ∉ r.seenNonces →
        r.seenNonces.length ≥ maxReplayCacheSize →
        ∀ timestamp nonce,
          nonceKey timestamp nonce ∈ r.seenNonces.take (r.seenNonces.length / 4) →
          c.now - timestamp > replayWindowSecs
  | (_, .rehash) => True

/-! ## Section 3: One check -/

theorem nonceKey_inj {t t' : Nat} {n n' : Str} (h : nonceKey t n = nonceKey t' n') :
    t = t' ∧ n = n' :=
  decimal_append_inj (by decide) h

namespace ReplayProtection

variable {r : ReplayProtection} {nonce : Str} {timestamp now : Nat}

theorem length_makeRoom_lt (h : r.seenNonces.length ≤ maxReplayCacheSize) :
    r.makeRoom.seenNonces.length < maxReplayCacheSize := by
  unfold makeRoom
  split
  · rw [List.length_drop]
    unfold maxReplayCacheSize at *
    omega
  · omega

theorem mem_take_of_dropped {key : Str} (h : key ∈ r.seenNonces)
    (hdropped : key ∉ r.makeRoom.seenNonces) :
    r.seenNonces.length ≥ maxReplayCacheSize ∧
      key ∈ r.seenNonces.take (r.seenNonces.length / 4) := by
  unfold makeRoom at hdropped
  split at hdropped
  · next hfull =>
    rw [← List.take_append_drop (r.seenNonces.length / 4) r.seenNonces, List.mem_append] at h
    exact ⟨hfull, h.resolve_right hdropped⟩
  · exact absurd h hdropped

theorem not_mem_makeRoom {key : Str} (hfull : r.seenNonces.length ≥ maxReplayCacheSize)
    (h : key ∈ r.seenNonces.take (r.seenNonces.length / 4)) : key ∉ r.makeRoom.seenNonces := by
  have hnodup := r.nodup
  rw [← List.take_append_drop (r.seenNonces.length / 4) r.seenNonces] at hnodup
  rw [makeRoom, if_pos hfull]
  exact (List.disjoint_of_nodup_append hnodup) h

/-- Only a pair inside the window that is not in the set is let through. -/
theorem checkAndAddAt_valid_iff :
    (r.checkAndAddAt nonce timestamp now).1 = .valid ↔
      InWindow timestamp now ∧ nonceKey timestamp nonce ∉ r.seenNonces := by
  unfold checkAndAddAt InWindow
  split_ifs with hfuture hexpired hseen
  · exact iff_of_false (by simp) fun h => absurd h.1.1 (Nat.not_le.mpr hfuture)
  · exact iff_of_false (by simp) fun h => absurd h.1.2 (Nat.not_le.mpr hexpired)
  · exact iff_of_false (by simp) fun h => h.2 hseen
  · exact iff_of_true rfl ⟨⟨Nat.le_of_not_lt hfuture, Nat.le_of_not_lt hexpired⟩, hseen⟩

theorem seenNonces_of_valid (h : (r.checkAndAddAt nonce timestamp now).1 = .valid) :
    (r.checkAndAddAt nonce timestamp now).2.seenNonces =
      nonceKey timestamp nonce :: r.makeRoom.seenNonces := by
  unfold checkAndAddAt at h ⊢
  split_ifs at h ⊢
  rfl

/-- Any other answer leaves the set as it is. -/
theorem eq_of_not_valid (h : (r.checkAndAddAt nonce timestamp now).1 ≠ .valid) :
    (r.checkAndAddAt nonce timestamp now).2 = r := by
  unfold checkAndAddAt at h ⊢
  split_ifs at h ⊢ <;> first | rfl | exact absurd rfl h

theorem length_checkAndAddAt_le (h : r.seenNonces.length ≤ maxReplayCacheSize) :
    (r.checkAndAddAt nonce timestamp now).2.seenNonces.length ≤ maxReplayCacheSize := by
  by_cases hvalid : (r.checkAndAddAt nonce timestamp now).1 = .valid
  · rw [seenNonces_of_valid hvalid, List.length_cons]
    exact length_makeRoom_lt h
  · rw [eq_of_not_valid hvalid]
    exact h

/-- A pair that is dropped inside the window is let through once more. -/
theorem valid_again_of_dropped {nonce' : Str} {timestamp' : Nat}
    (hvalid : (r.checkAndAddAt nonce timestamp now).1 = .valid)
    (hfull : r.seenNonces.length ≥ maxReplayCacheSize)
    (hquarter : nonceKey timestamp' nonce' ∈ r.seenNonces.take (r.seenNonces.length / 4))
    (hwindow : InWindow timestamp' now) :
    ((r.checkAndAddAt nonce timestamp now).2.checkAndAddAt nonce' timestamp' now).1 = .valid := by
  rw [checkAndAddAt_valid_iff]
  refine ⟨hwindow, ?_⟩
  rw [seenNonces_of_valid hvalid, List.mem_cons]
  rintro (heq | hkept)
  · have hseen := List.mem_of_mem_take hquarter
    rw [heq] at hseen
    exact (checkAndAddAt_valid_iff.mp hvalid).2 hseen
  · exact not_mem_makeRoom hfull hquarter hkept

end ReplayProtection

/-! ## Section 4: Whole runs -/

theorem seenNonces_length_le {tr : ReplayRun} {r : ReplayProtection}
    (h : replaySystem.Exec tr r) : r.seenNonces.length ≤ maxReplayCacheSize := by
  refine System.Exec.invariant (fun r => r.seenNonces.length ≤ maxReplayCacheSize) ?_ ?_ h
  · rintro _ rfl
    exact Nat.zero_le _
  · intro r l r' hle hstep
    cases l with
    | check c =>
      obtain rfl : r' = _ := hstep
      exact ReplayProtection.length_checkAndAddAt_le hle
    | rehash =>
      have hperm : r.seenNonces.Perm r'.seenNonces := hstep
      rw [← hperm.length_eq]
      exact hle

/-- Every accepted pair is still in the set, or has expired for good. -/
def Remembered (tr : ReplayRun) (r : ReplayProtection) : Prop :=
  ∀ p ∈ acceptedPairs tr, nonceKey p.2 p.1 ∈ r.seenNonces ∨
    ∃ c ∈ checksOf tr, c.now - p.2 > replayWindowSecs

section snoc
variable (tr : ReplayRun) (r : ReplayProtection) (c : ReplayCheck)

theorem checksOf_check : checksOf (tr ++ [(r, .check c)]) = checksOf tr ++ [c] := by
  rw [checksOf, List.filterMap_append]
  rfl

theorem checksOf_rehash : checksOf (tr ++ [(r, .rehash)]) = checksOf tr := by
  rw [checksOf, List.filterMap_append]
  exact List.append_nil _

theorem acceptedPairs_rehash : acceptedPairs (tr ++ [(r, .rehash)]) = acceptedPairs tr := by
  rw [acceptedPairs, List.filterMap_append]
  exact List.append_nil _

variable {tr r c}

theorem acceptedPairs_valid (h : (r.checkAndAddAt c.nonce c.timestamp c.now).1 = .valid) :
    acceptedPairs (tr ++ [(r, .check c)]) = acceptedPairs tr ++ [(c.nonce, c.timestamp)] := by
  have hpair : acceptedPair (r, .check c) = some (c.nonce, c.timestamp) := if_pos h
  rw [acceptedPairs, List.filterMap_append, List.filterMap_cons_some hpair]
  rfl

theorem acceptedPairs_not_valid (h : (r.checkAndAddAt c.nonce c.timestamp c.now).1 ≠ .valid) :
    acceptedPairs (tr ++ [(r, .check c)]) = acceptedPairs tr := by
  have hpair : acceptedPair (r, .check c) = none := if_neg h
  rw [acceptedPairs, List.filterMap_append, List.filterMap_cons_none hpair]
  exact List.append_nil _

end snoc

/-- A remembered pair that is answered `Valid` is a new one. -/
theorem not_mem_acceptedPairs {tr : ReplayRun} {r : ReplayProtection} {c : ReplayCheck}
    (hmem : Remembered tr r) (hclock : ∀ c' ∈ checksOf tr, c'.now ≤ c.now)
    (hvalid : (r.checkAndAddAt c.nonce c.timestamp c.now).1 = .valid) :
    (c.nonce, c.timestamp) ∉ acceptedPairs tr := by
  intro hold
  obtain ⟨hwindow, hfresh⟩ := ReplayProtection.checkAndAddAt_valid_iff.mp hvalid
  rcases hmem _ hold with hseen | ⟨c', hc', hexpired⟩
  · exact hfresh hseen
  · have hle := hclock c' hc'
    have := hwindow.2
    simp only at hexpired
    omega

theorem Remembered.check {tr : ReplayRun} {r : ReplayProtection} {c : ReplayCheck}
    (hmem : Remembered tr r) (hdrops : DropsExpired (r, .check c)) :
    Remembered (tr ++ [(r, .check c)]) (r.checkAndAddAt c.nonce c.timestamp c.now).2 := by
  intro p hp
  rw [checksOf_check]
  by_cases hvalid : (r.checkAndAddAt c.nonce c.timestamp c.now).1 = .valid
  · rw [ReplayProtection.seenNonces_of_valid hvalid]
    rw [acceptedPairs_valid hvalid, List.mem_append] at hp
    rcases hp with hold | hnew
    · rcases hmem p hold with hseen | ⟨c', hc', hexpired⟩
      -- it is still there, or it was dropped now and has expired
      · by_cases hkept : nonceKey p.2 p.1 ∈ r.makeRoom.seenNonces
        · exact Or.inl (List.mem_cons_of_mem _ hkept)
        · obtain ⟨hwindow, hfresh⟩ := ReplayProtection.checkAndAddAt_valid_iff.mp hvalid
          obtain ⟨hfull, hquarter⟩ := ReplayProtection.mem_take_of_dropped hseen hkept
          exact Or.inr ⟨c, by simp, hdrops hwindow hfresh hfull _ _ hquarter⟩
      · exact Or.inr ⟨c', List.mem_append_left _ hc', hexpired⟩
    · obtain rfl := List.mem_singleton.mp hnew
      exact Or.inl (List.mem_cons_self ..)
  · rw [ReplayProtection.eq_of_not_valid hvalid]
    rw [acceptedPairs_not_valid hvalid] at hp
    rcases hmem p hp with hseen | ⟨c', hc', hexpired⟩
    · exact Or.inl hseen
    · exact Or.inr ⟨c', List.mem_append_left _ hc', hexpired⟩

theorem Remembered.rehash {tr : ReplayRun} {r r' : ReplayProtection} (hmem : Remembered tr r)
    (hperm : r.seenNonces.Perm r'.seenNonces) : Remembered (tr ++ [(r, .rehash)]) r' := by
  intro p hp
  rw [acceptedPairs_rehash] at hp
  rw [checksOf_rehash]
  exact (hmem p hp).imp_left fun hseen => hperm.subset hseen

/-- **No replay, as long as only expired pairs are dropped**: in every run
    under a clock that does not run backwards, whose steps drop expired entries
    only, no pair is answered `Valid` twice. The set never outgrows its bound. -/
theorem replay_protected {tr : ReplayRun} {r : ReplayProtection} (h : replaySystem.Exec tr r)
    (hclock : NondecreasingNow tr) (hdrops : ∀ step ∈ tr, DropsExpired step) :
    (acceptedPairs tr).Nodup ∧ r.seenNonces.length ≤ maxReplayCacheSize := by
  refine ⟨?_, seenNonces_length_le h⟩
  have hrun : NondecreasingNow tr → (∀ step ∈ tr, DropsExpired step) →
      (acceptedPairs tr).Nodup ∧ Remembered tr r := by
    refine System.Exec.history (fun tr r => NondecreasingNow tr →
      (∀ step ∈ tr, DropsExpired step) → (acceptedPairs tr).Nodup ∧ Remembered tr r) ?_ ?_ h
    · intro r _ _ _
      exact ⟨List.nodup_nil, fun p hp => by cases hp⟩
    · intro tr r l r' ih hstep hclock hdrops
      rw [forall_mem_snoc] at hdrops
      cases l with
      | rehash =>
        rw [NondecreasingNow, checksOf_rehash] at hclock
        obtain ⟨hnodup, hmem⟩ := ih hclock hdrops.1
        rw [acceptedPairs_rehash]
        exact ⟨hnodup, hmem.rehash hstep⟩
      | check c =>
        rw [NondecreasingNow, checksOf_check, List.pairwise_append] at hclock
        obtain ⟨hnodup, hmem⟩ := ih hclock.1 hdrops.1
        obtain rfl : r' = _ := hstep
        refine ⟨?_, hmem.check hdrops.2⟩
        by_cases hvalid : (r.checkAndAddAt c.nonce c.timestamp c.now).1 = .valid
        · have hle : ∀ c' ∈ checksOf tr, c'.now ≤ c.now := fun c' hc' =>
            hclock.2.2 c' hc' c (List.mem_singleton_self c)
          rw [acceptedPairs_valid hvalid, ← List.concat_eq_append]
          exact hnodup.concat (not_mem_acceptedPairs hmem hle hvalid)
        · rw [acceptedPairs_not_valid hvalid]
          exact hnodup
  exact (hrun hclock hdrops).1

theorem exec_check {tr : ReplayRun} {r : ReplayProtection} (h : replaySystem.Exec tr r)
    (c : ReplayCheck) :
    replaySystem.Exec (tr ++ [(r, .check c)]) (r.checkAndAddAt c.nonce c.timestamp c.now).2 :=
  h.snoc rfl

/-- The second message with one nonce and timestamp is not let through. -/
theorem pair_checked_twice :
    ∃ tr r, replaySystem.Exec tr r ∧ checksOf tr = [⟨['p'], 7, 7⟩, ⟨['p'], 7, 8⟩] ∧
      (acceptedPairs tr).Nodup ∧ r.seenNonces.length ≤ maxReplayCacheSize := by
  have hnew : replaySystem.Exec [] .new := .nil rfl
  have hexec := exec_check (exec_check hnew ⟨['p'], 7, 7⟩) ⟨['p'], 7, 8⟩
  refine ⟨_, _, hexec, rfl, replay_protected hexec ?_ ?_⟩
  · rw [NondecreasingNow, checksOf_check, checksOf_check]
    decide
  · rw [forall_mem_snoc, forall_mem_snoc]
    refine ⟨⟨fun step hstep => (by cases hstep), ?_⟩, ?_⟩
    · intro _ _ hfull
      exact absurd hfull (by decide)
    · intro _ _ hfull
      exact absurd hfull (by decide)

/-! ## Section 5: A fresh pair is dropped -/

section dropped

/-- A check of pair number `i` at the start of the clock. -/
def earlyCheck (i : Nat) : ReplayCheck := ⟨decimal i, 0, 0⟩

def lateCheck (nonce : Str) : ReplayCheck := ⟨nonce, 1000, 1000⟩

/-- The first `n` pairs are let through and stay, as long as they fit. -/
theorem exec_earlyChecks {n : Nat} (hn : n ≤ maxReplayCacheSize) :
    ∃ tr r, replaySystem.Exec tr r ∧ checksOf tr = (List.range n).map earlyCheck ∧
      acceptedPairs tr = (List.range n).map (fun i => (decimal i, 0)) ∧
      r.seenNonces.length = n ∧ ∀ key ∈ r.seenNonces, ∃ i < n, key = nonceKey 0 (decimal i) := by
  induction n with
  | zero => exact ⟨[], .new, .nil rfl, rfl, rfl, rfl, fun key hkey => by cases hkey⟩
  | succ n ih =>
    obtain ⟨tr, r, hexec, hchecks, haccepted, hlength, hkeys⟩ := ih (Nat.le_of_succ_le hn)
    have hfresh : nonceKey 0 (decimal n) ∉ r.seenNonces := by
      intro hmem
      obtain ⟨i, hi, heq⟩ := hkeys _ hmem
      have := decimal_injective (nonceKey_inj heq).2
      omega
    have hvalid : (r.checkAndAddAt (decimal n) 0 0).1 = .valid :=
      ReplayProtection.checkAndAddAt_valid_iff.mpr ⟨by decide, hfresh⟩
    have hroom : r.makeRoom = r := if_neg (by omega)
    have hseen := ReplayProtection.seenNonces_of_valid hvalid
    rw [hroom] at hseen
    refine ⟨_, _, exec_check hexec (earlyCheck n), ?_, ?_, ?_, ?_⟩
    · rw [checksOf_check, hchecks, List.range_succ, List.map_append]
      rfl
    · rw [acceptedPairs_valid hvalid, haccepted, List.range_succ, List.map_append]
      rfl
    · show ((r.checkAndAddAt (decimal n) 0 0).2.seenNonces).length = n + 1
      rw [hseen, List.length_cons, hlength]
    · show ∀ key ∈ (r.checkAndAddAt (decimal n) 0 0).2.seenNonces, _
      intro key hkey
      rw [hseen] at hkey
      rcases List.mem_cons.mp hkey with rfl | hold
      · exact ⟨n, Nat.lt_succ_self n, rfl⟩
      · obtain ⟨i, hi, heq⟩ := hkeys key hold
        exact ⟨i, Nat.lt_succ_of_lt hi, heq⟩

/-- A late pair takes the last free place, and is the first of the full set. -/
theorem exec_fullSet :
    ∃ tr r, replaySystem.Exec tr r ∧
      checksOf tr = (List.range 9999).map earlyCheck ++ [lateCheck ['p']] ∧
      acceptedPairs tr = (List.range 9999).map (fun i => (decimal i, 0)) ++ [(['p'], 1000)] ∧
      r.seenNonces.length = maxReplayCacheSize ∧
      nonceKey 1000 ['p'] ∈ r.seenNonces.take (r.seenNonces.length / 4) ∧
      nonceKey 1000 ['q'] ∉ r.seenNonces := by
  obtain ⟨tr, r, hexec, hchecks, haccepted, hlength, hkeys⟩ :=
    exec_earlyChecks (Nat.sub_le maxReplayCacheSize 1)
  have hfresh : ∀ nonce : Str, nonceKey 1000 nonce ∉ r.seenNonces := by
    intro nonce hmem
    obtain ⟨i, -, heq⟩ := hkeys _ hmem
    exact absurd (nonceKey_inj heq).1 (by decide)
  have hvalid : (r.checkAndAddAt ['p'] 1000 1000).1 = .valid :=
    ReplayProtection.checkAndAddAt_valid_iff.mpr ⟨by decide, hfresh _⟩
  have hroom : r.makeRoom = r := if_neg (by rw [hlength]; decide)
  have hseen : (r.checkAndAddAt (lateCheck ['p']).nonce (lateCheck ['p']).timestamp
      (lateCheck ['p']).now).2.seenNonces = nonceKey 1000 ['p'] :: r.seenNonces := by
    have hadded := ReplayProtection.seenNonces_of_valid hvalid
    rw [hroom] at hadded
    exact hadded
  refine ⟨_, _, exec_check hexec (lateCheck ['p']), ?_, ?_, ?_, ?_, ?_⟩
  · rw [checksOf_check, hchecks]
    rfl
  · rw [acceptedPairs_valid hvalid, haccepted]
    rfl
  · rw [hseen, List.length_cons, hlength]
    rfl
  · rw [hseen, List.length_cons, hlength]
    exact List.mem_cons_self ..
  · rw [hseen, List.mem_cons]
    rintro (heq | hmem)
    · exact absurd (nonceKey_inj heq).2 (by decide)
    · exact hfresh _ hmem

/-- **A pair is answered `Valid` twice within one second**: the set is full of
    expired pairs, and the next pair drops the one that came before it. -/
theorem fresh_pair_valid_twice :
    ∃ tr r, replaySystem.Exec tr r ∧ NondecreasingNow tr ∧ WindowFits tr ∧
      ¬ (acceptedPairs tr).Nodup := by
  obtain ⟨tr, r, hexec, hchecks, haccepted, hlength, hquarter, hfresh⟩ := exec_fullSet
  have hvalid : (r.checkAndAddAt ['q'] 1000 1000).1 = .valid :=
    ReplayProtection.checkAndAddAt_valid_iff.mpr ⟨by decide, hfresh⟩
  have hagain := ReplayProtection.valid_again_of_dropped hvalid (Nat.le_of_eq hlength.symm) hquarter
    (by decide)
  obtain ⟨tr₂, r₂, hexec₂, hchecks₂, hpairs₂⟩ : ∃ tr₂ r₂, replaySystem.Exec tr₂ r₂ ∧
      checksOf tr₂ = (List.range 9999).map earlyCheck ++
        [lateCheck ['p'], lateCheck ['q'], lateCheck ['p']] ∧
      acceptedPairs tr₂ = (List.range 9999).map (fun i => (decimal i, 0)) ++
        [(['p'], 1000), (['q'], 1000), (['p'], 1000)] := by
    refine ⟨_, _, exec_check (exec_check hexec (lateCheck ['q'])) (lateCheck ['p']), ?_, ?_⟩
    · rw [checksOf_check, checksOf_check, hchecks]
      simp
    · rw [acceptedPairs_valid hagain, acceptedPairs_valid hvalid, haccepted]
      simp [lateCheck]
  refine ⟨tr₂, r₂, hexec₂, ?_, ?_, ?_⟩
  · rw [NondecreasingNow, hchecks₂, List.pairwise_append]
    refine ⟨?_, by decide, ?_⟩
    · exact List.Pairwise.map _ (fun _ _ _ => Nat.le_refl 0) List.pairwise_lt_range
    · intro c hc c' hc'
      obtain ⟨i, -, rfl⟩ := List.mem_map.mp hc
      exact Nat.zero_le _
  · intro c hc
    rw [hchecks₂, List.mem_append] at hc
    rw [hpairs₂, List.countP_append, List.countP_map]
    rcases hc with hearly | hlate
    · obtain ⟨i, -, rfl⟩ := List.mem_map.mp hearly
      have hcount := List.countP_le_length
        (p := (fun p : Str × Nat => decide (InWindow p.2 (earlyCheck i).now)) ∘
          fun i => (decimal i, 0)) (l := List.range 9999)
      rw [List.length_range] at hcount
      exact Nat.add_le_add hcount (Nat.le_refl 0)
    · have hnow : c.now = 1000 := by
        simp only [List.mem_cons, List.not_mem_nil, or_false] at hlate
        rcases hlate with rfl | rfl | rfl <;> rfl
      rw [hnow, List.countP_eq_zero.mpr fun i _ => by simp [InWindow, replayWindowSecs]]
      decide
  · rw [hpairs₂]
    intro hnodup
    exact absurd (List.nodup_append.mp hnodup).2.1 (by decide)

end dropped

end Synvoid.Mesh
