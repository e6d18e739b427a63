import Synvoid.Framework.RustStr
import Mathlib.Order.Defs.LinearOrder

/-! # Selection of a backend

    Model of `UpstreamPool` (`synvoid-upstream/src/pool.rs`): six load balancing
    algorithms over the backends that pass a test, and four entry points with
    tests of their own.

    Every algorithm gives a backend that passes, if there is one
    (`applyAlgorithm_picks`), so what an entry point can return is decided by its
    tests. `select_backend` tries the primaries first. The entry points for an
    address and for a protocol do not ask whether a backend is a backup, and
    `select_next_backend` keeps to backups once it has one.

    Loads are values of a linear order. The counter wraps around, and so does the
    sum of the weights.
-/

namespace Synvoid.Upstream

open Synvoid.Framework

inductive LoadBalanceAlgorithm where
  | roundRobin
  | random
  | leastConnections
  | peakEwma
  | weightedRoundRobin
  | ipHash
  deriving DecidableEq

inductive BackendProtocol where
  | http
  | https
  | webSocket
  | wss
  | grpc
  | grpcTls
  | tcp
  | quicTunnel
  deriving DecidableEq

structure Backend where
  url : Str
  weight : UInt32 := 1
  maxConnections : Nat := 100
  currentConnections : Nat := 0
  isHealthy : Bool := true
  protocol : BackendProtocol := .http
  isBackup : Bool := false
  deriving DecidableEq

def Backend.isAvailable (b : Backend) : Bool :=
  b.isHealthy && b.currentConnections < b.maxConnections

/-- The loads of the backends: `composite_load`, and the cost in
    `apply_peak_ewma` with the value its search starts from. -/
structure Loads (α : Type*) [LinearOrder α] where
  compositeLoad : Backend → α
  cost : Backend → α
  maxCost : α
  cost_lt : ∀ b, cost b < maxCost

/-- The hash functions and the random numbers of a call. -/
structure Draws where
  hash : Str → Nat
  hashBytes : Bytes → Nat
  randomRange : Nat → Nat
  randomRange_lt : ∀ n, 0 < n → randomRange n < n

/-- What a call returns, and the counter behind it. -/
abbrev Selection := Option Backend × UInt64

section algorithms
variable {α : Type*} [LinearOrder α] (loads : Loads α) (draws : Draws)

def countMatching (backends : List Backend) (isMatch : Backend → Bool) : Nat :=
  (backends.filter isMatch).length

def nthMatching (backends : List Backend) (isMatch : Backend → Bool) (n : Nat) : Option Backend :=
  (backends.filter isMatch)[n]?

def applyRoundRobin (index : UInt64) (backends : List Backend) (isMatch : Backend → Bool) :
    Selection :=
  let len := countMatching backends isMatch
  if len = 0 then (none, index)
  else (nthMatching backends isMatch (index.toNat % len), index + 1)

def applyRandom (index : UInt64) (backends : List Backend) (isMatch : Backend → Bool) : Selection :=
  let len := countMatching backends isMatch
  if len = 0 then (none, index)
  else (nthMatching backends isMatch (draws.randomRange len), index)

/-- `min_by`: the first one of the least load. -/
def minByLoad (best : Backend) : List Backend → Backend
  | [] => best
  | b :: bs => minByLoad (if loads.compositeLoad b < loads.compositeLoad best then b else best) bs

def applyLeastConnections (index : UInt64) (backends : List Backend) (isMatch : Backend → Bool) :
    Selection :=
  match backends.filter isMatch with
  | [] => (none, index)
  | b :: bs => (some (minByLoad loads b bs), index)

def peakEwmaFrom (best : Option Backend) (minCost : α) : List Backend → Option Backend
  | [] => best
  | b :: bs =>
      if loads.cost b < minCost then peakEwmaFrom (some b) (loads.cost b) bs
      else peakEwmaFrom best minCost bs

def applyPeakEwma (index : UInt64) (backends : List Backend) (isMatch : Backend → Bool) :
    Selection :=
  (peakEwmaFrom loads none loads.maxCost (backends.filter isMatch), index)

def applyIpHash (index : UInt64) (backends : List Backend) (isMatch : Backend → Bool)
    (clientIpHint : Option Str) : Selection :=
  let len := countMatching backends isMatch
  if len = 0 then (none, index)
  else
    match clientIpHint with
    | some ip => (nthMatching backends isMatch (draws.hashBytes (utf8 ip) % len), index)
    | none => (nthMatching backends isMatch (index.toNat % len), index + 1)

/-- The walk over the weights. -/
def weightedFrom (remainder : UInt32) : List Backend → Option Backend
  | [] => none
  | b :: bs => if remainder < b.weight then some b else weightedFrom (remainder - b.weight) bs

def applyWeightedRoundRobin (index : UInt64) (backends : List Backend) (isMatch : Backend → Bool) :
    Selection :=
  let totalWeight := (backends.filter isMatch).foldl (fun total b => total + b.weight) (0 : UInt32)
  if totalWeight = 0 then (nthMatching backends isMatch 0, index)
  else
    let remainder := UInt32.ofNat (index.toNat % totalWeight.toNat)
    ((weightedFrom remainder (backends.filter isMatch)).orElse fun _ =>
      nthMatching backends isMatch 0, index + 1)

def applyAlgorithm (algorithm : LoadBalanceAlgorithm) (index : UInt64) (backends : List Backend)
    (isMatch : Backend → Bool) (clientIpHint : Option Str) : Selection :=
  match algorithm with
  | .roundRobin => applyRoundRobin index backends isMatch
  | .random => applyRandom draws index backends isMatch
  | .leastConnections => applyLeastConnections loads index backends isMatch
  | .peakEwma => applyPeakEwma loads index backends isMatch
  | .weightedRoundRobin => applyWeightedRoundRobin index backends isMatch
  | .ipHash => applyIpHash draws index backends isMatch clientIpHint

end algorithms

/-! ### Entry points -/

structure UpstreamPool where
  backends : List Backend
  algorithm : LoadBalanceAlgorithm
  roundRobinIndex : UInt64

namespace UpstreamPool

variable {α : Type*} [LinearOrder α] (loads : Loads α) (draws : Draws) (pool : UpstreamPool)

def selectFromBackends (backupOnly : Bool) : Selection :=
  let isMatch := fun b : Backend => b.isBackup == backupOnly && b.isAvailable
  if pool.backends.any isMatch then
    applyAlgorithm loads draws pool.algorithm pool.roundRobinIndex pool.backends isMatch none
  else (none, pool.roundRobinIndex)

def selectBackend : Selection :=
  match pool.selectFromBackends loads draws false with
  | (some b, index) => (some b, index)
  | (none, index) => { pool with roundRobinIndex := index }.selectFromBackends loads draws true

def selectNextBackend (current : Backend) : Selection :=
  let isMatch := fun b : Backend =>
    b.url != current.url && b.isAvailable && b.isBackup == current.isBackup
  match applyAlgorithm loads draws pool.algorithm pool.roundRobinIndex pool.backends
    isMatch none with
  | (some b, index) => (some b, index)
  | (none, index) =>
      if !current.isBackup then (pool.backends.find? fun b => b.isBackup && b.isAvailable, index)
      else (none, index)

def selectBackendForIp (clientIp : Str) : Selection :=
  if pool.algorithm ≠ .ipHash then pool.selectBackend loads draws
  else
    let count := countMatching pool.backends Backend.isAvailable
    if count = 0 then (none, pool.roundRobinIndex)
    else
      (nthMatching pool.backends Backend.isAvailable (draws.hash clientIp % count % count),
        pool.roundRobinIndex)

def selectBackendForProtocol (requiredProtocol : BackendProtocol) : Selection :=
  let isMatch := fun b : Backend => b.isAvailable && b.protocol == requiredProtocol
  if pool.backends.any isMatch then
    applyAlgorithm loads draws pool.algorithm pool.roundRobinIndex pool.backends isMatch none
  else (none, pool.roundRobinIndex)

end UpstreamPool

/-! ### What an algorithm picks -/

/-- `result` passes the test, and there is one if a backend passes. -/
def Picks (backends : List Backend) (isMatch : Backend → Bool) (result : Option Backend) : Prop :=
  (∀ b, result = some b → b ∈ backends.filter isMatch) ∧
    (result = none → backends.filter isMatch = [])

section picks
variable {α : Type*} [LinearOrder α] {loads : Loads α} {draws : Draws}
variable {backends : List Backend} {isMatch : Backend → Bool}

theorem picks_none (h : countMatching backends isMatch = 0) : Picks backends isMatch none :=
  ⟨fun _ hb => (by cases hb), fun _ => List.length_eq_zero_iff.mp h⟩

/-- A position among those that pass. -/
theorem picks_nthMatching {n : Nat} (h : n < countMatching backends isMatch) :
    Picks backends isMatch (nthMatching backends isMatch n) := by
  have hsome : nthMatching backends isMatch n = some ((backends.filter isMatch)[n]) :=
    List.getElem?_eq_getElem h
  rw [hsome]
  refine ⟨fun b hb => ?_, fun hnone => by cases hnone⟩
  obtain rfl := Option.some.inj hb
  exact List.getElem_mem h

theorem minByLoad_mem (best : Backend) (bs : List Backend) :
    minByLoad loads best bs ∈ best :: bs := by
  induction bs generalizing best with
  | nil => exact List.mem_singleton.mpr rfl
  | cons b bs ih =>
    rw [minByLoad]
    have hmem := ih (if loads.compositeLoad b < loads.compositeLoad best then b else best)
    split_ifs at hmem ⊢ with hlt
    · exact List.mem_cons_of_mem _ hmem
    · rcases List.mem_cons.mp hmem with heq | hmem
      · rw [heq]
        exact List.mem_cons_self
      · exact List.mem_cons_of_mem _ (List.mem_cons_of_mem _ hmem)

theorem peakEwmaFrom_mem {best : Option Backend} {minCost : α} {bs : List Backend} {b : Backend}
    (h : peakEwmaFrom loads best minCost bs = some b) : best = some b ∨ b ∈ bs := by
  induction bs generalizing best minCost with
  | nil => exact .inl h
  | cons c bs ih =>
    rw [peakEwmaFrom] at h
    split_ifs at h
    · rcases ih h with heq | hmem
      · exact .inr (by rw [Option.some.inj heq]; exact List.mem_cons_self)
      · exact .inr (List.mem_cons_of_mem _ hmem)
    · exact (ih h).imp_right (List.mem_cons_of_mem _)

/-- The first backend costs less than the value that the search starts from. -/
theorem peakEwmaFrom_isSome (loads : Loads α) (best : Option Backend) (minCost : α)
    (bs : List Backend)
    (h : best.isSome ∨ bs ≠ [] ∧ minCost = loads.maxCost) :
    (peakEwmaFrom loads best minCost bs).isSome := by
  induction bs generalizing best minCost with
  | nil => exact h.resolve_right (by simp)
  | cons b bs ih =>
    rw [peakEwmaFrom]
    split_ifs with hlt
    · exact ih _ _ (.inl rfl)
    · rcases h with hbest | ⟨-, rfl⟩
      · exact ih _ _ (.inl hbest)
      · exact absurd (loads.cost_lt b) hlt

theorem weightedFrom_mem {remainder : UInt32} {bs : List Backend} {b : Backend}
    (h : weightedFrom remainder bs = some b) : b ∈ bs := by
  induction bs generalizing remainder with
  | nil => cases h
  | cons c bs ih =>
    rw [weightedFrom] at h
    split_ifs at h
    · obtain rfl := Option.some.inj h
      exact List.mem_cons_self
    · exact List.mem_cons_of_mem _ (ih h)

theorem picks_weighted (index : UInt64) :
    Picks backends isMatch (applyWeightedRoundRobin index backends isMatch).1 := by
  have hfirst : Picks backends isMatch (nthMatching backends isMatch 0) := by
    rcases Nat.eq_zero_or_pos (countMatching backends isMatch) with hzero | hpos
    · have hnil : backends.filter isMatch = [] := List.length_eq_zero_iff.mp hzero
      have hnone : nthMatching backends isMatch 0 = none := by
        rw [nthMatching, hnil]
        rfl
      rw [hnone]
      exact picks_none hzero
    · exact picks_nthMatching hpos
  unfold applyWeightedRoundRobin
  simp only
  split_ifs
  · exact hfirst
  · -- the walk gives one of them, and behind it stands the first
    cases hwalk : weightedFrom _ (backends.filter isMatch) with
    | none => exact hfirst
    | some b =>
      refine ⟨fun c hc => ?_, fun hnone => by cases hnone⟩
      obtain rfl := Option.some.inj hc
      exact weightedFrom_mem hwalk

/-- Every algorithm picks a backend that passes. -/
theorem applyAlgorithm_picks (algorithm : LoadBalanceAlgorithm) (index : UInt64)
    (hint : Option Str) :
    Picks backends isMatch
      (applyAlgorithm loads draws algorithm index backends isMatch hint).1 := by
  cases algorithm with
  | roundRobin =>
    simp only [applyAlgorithm, applyRoundRobin]
    split_ifs with hzero
    · exact picks_none hzero
    · exact picks_nthMatching (Nat.mod_lt _ (Nat.pos_of_ne_zero hzero))
  | random =>
    simp only [applyAlgorithm, applyRandom]
    split_ifs with hzero
    · exact picks_none hzero
    · exact picks_nthMatching (draws.randomRange_lt _ (Nat.pos_of_ne_zero hzero))
  | leastConnections =>
    simp only [applyAlgorithm, applyLeastConnections]
    cases hfilter : backends.filter isMatch with
    | nil => exact picks_none (by rw [countMatching, hfilter]; rfl)
    | cons b bs =>
      refine ⟨fun c hc => ?_, fun hnone => by cases hnone⟩
      obtain rfl := Option.some.inj hc
      rw [hfilter]
      exact minByLoad_mem b bs
  | peakEwma =>
    simp only [applyAlgorithm, applyPeakEwma]
    refine ⟨fun b hb => (peakEwmaFrom_mem hb).resolve_left (by simp), fun hnone => ?_⟩
    by_contra hne
    have hsome := peakEwmaFrom_isSome loads none loads.maxCost _ (.inr ⟨hne, rfl⟩)
    rw [hnone] at hsome
    cases hsome
  | weightedRoundRobin => exact picks_weighted index
  | ipHash =>
    simp only [applyAlgorithm, applyIpHash]
    split_ifs with hzero
    · exact picks_none hzero
    · cases hint with
      | some ip => exact picks_nthMatching (Nat.mod_lt _ (Nat.pos_of_ne_zero hzero))
      | none => exact picks_nthMatching (Nat.mod_lt _ (Nat.pos_of_ne_zero hzero))

end picks

/-! ### Backups as a last resort -/

/-- A backend that a call could return: it is available, and eligible for the
    call. -/
def Eligible (backends : List Backend) (eligible : Backend → Bool) (b : Backend) : Prop :=
  b ∈ backends ∧ b.isAvailable = true ∧ eligible b = true

/-- Some primary that the call could return. -/
def HasPrimary (backends : List Backend) (eligible : Backend → Bool) : Prop :=
  ∃ b, Eligible backends eligible b ∧ b.isBackup = false

/-- Some backup that the call could return. -/
def HasBackup (backends : List Backend) (eligible : Backend → Bool) : Prop :=
  ∃ b, Eligible backends eligible b ∧ b.isBackup = true

/-- What is returned is available and no backup if there is an eligible primary,
    and something is returned if there is an eligible backend. -/
structure LastResort (backends : List Backend) (eligible : Backend → Bool)
    (result : Option Backend) : Prop where
  available : ∀ b, result = some b → b ∈ backends ∧ b.isAvailable = true
  primary : ∀ b, result = some b → b.isBackup = true → ¬ HasPrimary backends eligible
  found : ∀ b, Eligible backends eligible b → result.isSome = true

/-- The test of the calls that ask for nothing else. -/
def anyBackend (_ : Backend) : Bool := true

section entry
variable {α : Type*} [LinearOrder α] (loads : Loads α) (draws : Draws) (pool : UpstreamPool)

theorem picks_nil {backends : List Backend} {isMatch : Backend → Bool}
    (h : backends.any isMatch = false) : Picks backends isMatch none := by
  refine picks_none ?_
  rw [countMatching, List.length_eq_zero_iff, List.filter_eq_nil_iff]
  simpa using h

theorem selectFromBackends_picks (backupOnly : Bool) :
    Picks pool.backends (fun b => b.isBackup == backupOnly && b.isAvailable)
      (pool.selectFromBackends loads draws backupOnly).1 := by
  unfold UpstreamPool.selectFromBackends
  simp only
  split_ifs with hany
  · exact applyAlgorithm_picks _ _ _
  · exact picks_nil (by simpa using hany)

/-- Primaries come first. -/
theorem selectBackend_lastResort :
    LastResort pool.backends anyBackend (pool.selectBackend loads draws).1 := by
  have hprimaries := selectFromBackends_picks loads draws pool false
  unfold UpstreamPool.selectBackend
  cases hfirst : pool.selectFromBackends loads draws false with
  | mk result index =>
    rw [hfirst] at hprimaries
    cases result with
    | some b =>
      have hmem := List.mem_filter.mp (hprimaries.1 b rfl)
      simp only [Bool.and_eq_true, beq_iff_eq] at hmem
      refine ⟨fun c hc => ?_, fun c hc hbackup => ?_, fun _ _ => rfl⟩
      · obtain rfl := Option.some.inj hc
        exact ⟨hmem.1, hmem.2.2⟩
      · obtain rfl := Option.some.inj hc
        rw [hmem.2.1] at hbackup
        cases hbackup
    | none =>
      have hnone : ¬ HasPrimary pool.backends anyBackend := by
        rintro ⟨b, ⟨hb, havailable, -⟩, hprimary⟩
        have hfilter := List.filter_eq_nil_iff.mp (hprimaries.2 rfl) b hb
        simp [hprimary, havailable] at hfilter
      have hbackups := selectFromBackends_picks loads draws
        { pool with roundRobinIndex := index } true
      simp only
      refine ⟨fun c hc => ?_, fun c _ _ => hnone, fun b hb => ?_⟩
      · have hmem := List.mem_filter.mp (hbackups.1 c hc)
        simp only [Bool.and_eq_true, beq_iff_eq] at hmem
        exact ⟨hmem.1, hmem.2.2⟩
      · by_contra hresult
        have hfilter := List.filter_eq_nil_iff.mp
          (hbackups.2 (Option.not_isSome_iff_eq_none.mp hresult)) b hb.1
        cases hbackup : b.isBackup with
        | false => exact hnone ⟨b, hb, hbackup⟩
        | true => simp [hbackup, hb.2.1] at hfilter

/-- A pick that does not ask for backups is right unless both kinds pass. -/
theorem lastResort_of_picks {backends : List Backend} {isMatch eligible : Backend → Bool}
    {result : Option Backend} (h : Picks backends isMatch result)
    (hmatch : ∀ b, isMatch b = true ↔ b.isAvailable = true ∧ eligible b = true)
    (hunmixed : ¬ (HasPrimary backends eligible ∧ HasBackup backends eligible)) :
    LastResort backends eligible result := by
  have heligible : ∀ b, result = some b → Eligible backends eligible b := by
    intro b hb
    have hmem := List.mem_filter.mp (h.1 b hb)
    exact ⟨hmem.1, (hmatch b).mp hmem.2⟩
  refine ⟨fun b hb => ⟨(heligible b hb).1, (heligible b hb).2.1⟩, fun b hb hbackup hprimary => ?_,
    fun b hb => ?_⟩
  · exact hunmixed ⟨hprimary, b, heligible b hb, hbackup⟩
  · by_contra hresult
    have hfilter :=
      List.filter_eq_nil_iff.mp (h.2 (Option.not_isSome_iff_eq_none.mp hresult)) b hb.1
    exact hfilter ((hmatch b).mpr hb.2)

/-- Every backend that passes stands at some position. -/
theorem exists_nthMatching {backends : List Backend} {isMatch : Backend → Bool} {b : Backend}
    (hmem : b ∈ backends) (hmatch : isMatch b = true) :
    ∃ n < countMatching backends isMatch, nthMatching backends isMatch n = some b :=
  (List.mem_iff_getElem?.mp (List.mem_filter.mpr ⟨hmem, hmatch⟩)).imp fun _ hn =>
    ⟨(List.getElem?_eq_some_iff.mp hn).1, hn⟩

/-- Draws that lead to a given position. -/
def drawsAt (n : Nat) : Draws where
  hash _ := n
  hashBytes _ := 0
  randomRange len := if n < len then n else 0
  randomRange_lt len hpos := by
    split_ifs with hlt
    · exact hlt
    · exact hpos

theorem selectBackendForIp_iff (clientIp : Str) :
    (∀ draws index, LastResort pool.backends anyBackend
      ({ pool with roundRobinIndex := index }.selectBackendForIp loads draws clientIp).1) ↔
    (pool.algorithm = .ipHash →
      ¬ (HasPrimary pool.backends anyBackend ∧ HasBackup pool.backends anyBackend)) := by
  constructor
  · rintro h halgorithm ⟨hprimary, b, hb, hbackup⟩
    obtain ⟨n, hn, hnth⟩ := exists_nthMatching hb.1 hb.2.1
    have hresult : (pool.selectBackendForIp loads (drawsAt n) clientIp).1 = some b := by
      unfold UpstreamPool.selectBackendForIp
      rw [if_neg (by simp [halgorithm])]
      simp only [drawsAt]
      rw [if_neg (by omega), Nat.mod_eq_of_lt hn, Nat.mod_eq_of_lt hn, hnth]
    exact (h (drawsAt n) pool.roundRobinIndex).primary b hresult hbackup hprimary
  · intro hunmixed draws index
    unfold UpstreamPool.selectBackendForIp
    simp only
    split_ifs with halgorithm hzero
    · exact selectBackend_lastResort loads draws { pool with roundRobinIndex := index }
    · exact lastResort_of_picks (picks_none hzero) (by simp [anyBackend])
        (hunmixed (by simpa using halgorithm))
    · exact lastResort_of_picks
        (picks_nthMatching (Nat.mod_lt _ (Nat.pos_of_ne_zero hzero))) (by simp [anyBackend])
        (hunmixed (by simpa using halgorithm))

/-- The test of a protocol. -/
def speaks (protocol : BackendProtocol) (b : Backend) : Bool := b.protocol == protocol

theorem selectBackendForProtocol_picks (protocol : BackendProtocol) :
    Picks pool.backends (fun b => b.isAvailable && b.protocol == protocol)
      (pool.selectBackendForProtocol loads draws protocol).1 := by
  unfold UpstreamPool.selectBackendForProtocol
  simp only
  split_ifs with hany
  · exact applyAlgorithm_picks _ _ _
  · exact picks_nil (by simpa using hany)

theorem selectBackendForProtocol_iff (protocol : BackendProtocol) :
    (∀ algorithm draws index, LastResort pool.backends (speaks protocol)
      (({ pool with algorithm := algorithm, roundRobinIndex := index } :
        UpstreamPool).selectBackendForProtocol loads draws protocol).1) ↔
    ¬ (HasPrimary pool.backends (speaks protocol) ∧ HasBackup pool.backends (speaks protocol)) := by
  constructor
  · rintro h ⟨hprimary, b, hb, hbackup⟩
    have hmatch : (b.isAvailable && b.protocol == protocol) = true := by
      rw [Bool.and_eq_true]
      exact hb.2
    obtain ⟨n, hn, hnth⟩ : ∃ n < countMatching pool.backends
        (fun b => b.isAvailable && b.protocol == protocol),
        nthMatching pool.backends (fun b => b.isAvailable && b.protocol == protocol) n = some b :=
      exists_nthMatching hb.1 hmatch
    have hresult : (({ pool with algorithm := .random } : UpstreamPool).selectBackendForProtocol
        loads (drawsAt n) protocol).1 = some b := by
      unfold UpstreamPool.selectBackendForProtocol
      simp only
      rw [if_pos (List.any_eq_true.mpr ⟨b, hb.1, hmatch⟩)]
      simp only [applyAlgorithm, applyRandom, drawsAt]
      rw [if_neg (by omega), if_pos hn, hnth]
    exact (h .random (drawsAt n) pool.roundRobinIndex).primary b hresult hbackup hprimary
  · intro hunmixed algorithm draws index
    exact lastResort_of_picks (selectBackendForProtocol_picks loads draws
      { pool with algorithm := algorithm, roundRobinIndex := index } protocol)
      (by simp [speaks]) hunmixed

/-- The test of the next backend. -/
def differs (current b : Backend) : Bool := b.url != current.url

theorem selectNextBackend_iff (current : Backend) :
    LastResort pool.backends (differs current) (pool.selectNextBackend loads draws current).1 ↔
      ¬ (current.isBackup = true ∧ HasPrimary pool.backends (differs current)) := by
  have hpicks : Picks pool.backends
      (fun b => b.url != current.url && b.isAvailable && b.isBackup == current.isBackup)
      (applyAlgorithm loads draws pool.algorithm pool.roundRobinIndex pool.backends
        (fun b => b.url != current.url && b.isAvailable && b.isBackup == current.isBackup)
          none).1 :=
    applyAlgorithm_picks _ _ _
  unfold UpstreamPool.selectNextBackend
  simp only
  cases hfirst : applyAlgorithm loads draws pool.algorithm pool.roundRobinIndex pool.backends
      (fun b => b.url != current.url && b.isAvailable && b.isBackup == current.isBackup) none with
  | mk result index =>
    rw [hfirst] at hpicks
    cases result with
    | some b =>
      -- another backend of the same kind
      have hmem := List.mem_filter.mp (hpicks.1 b rfl)
      simp only [Bool.and_eq_true, beq_iff_eq] at hmem
      constructor
      · rintro h ⟨hcurrent, hprimary⟩
        exact h.primary b rfl (by rw [hmem.2.2, hcurrent]) hprimary
      · intro hnot
        refine ⟨fun c hc => ?_, fun c hc hbackup hprimary => ?_, fun _ _ => rfl⟩
        · obtain rfl := Option.some.inj hc
          exact ⟨hmem.1, hmem.2.1.2⟩
        · obtain rfl := Option.some.inj hc
          exact hnot ⟨by rw [← hmem.2.2, hbackup], hprimary⟩
    | none =>
      -- no other backend of the same kind is available
      have hnone : ∀ b, Eligible pool.backends (differs current) b →
          b.isBackup ≠ current.isBackup := by
        intro b hb hkind
        have hfilter := List.filter_eq_nil_iff.mp (hpicks.2 rfl) b hb.1
        have hdiffers : (b.url != current.url) = true := hb.2.2
        simp [hdiffers, hb.2.1, hkind] at hfilter
      simp only
      cases hcurrent : current.isBackup with
      | true =>
        rw [if_neg (by simp)]
        constructor
        · rintro h ⟨-, b, hb, -⟩
          cases h.found b hb
        · intro hnot
          refine ⟨fun c hc => (by cases hc), fun c hc => (by cases hc), fun b hb => ?_⟩
          have hkind := hnone b hb
          rw [hcurrent, ne_eq, Bool.not_eq_true] at hkind
          exact absurd ⟨rfl, b, hb, hkind⟩ hnot
      | false =>
        rw [if_pos (by simp)]
        refine ⟨fun _ h => (by cases h.1),
          fun _ => ⟨fun c hc => ?_, fun c _ _ => ?_, fun b hb => ?_⟩⟩
        · have hfound := List.find?_some hc
          simp only [Bool.and_eq_true] at hfound
          exact ⟨List.mem_of_find?_eq_some hc, hfound.2⟩
        · rintro ⟨b, hb, hprimary⟩
          exact hnone b hb (by rw [hprimary, hcurrent])
        · have hkind := hnone b hb
          rw [hcurrent, ne_eq, Bool.not_eq_false] at hkind
          rw [List.find?_isSome]
          exact ⟨b, hb.1, by rw [hkind, hb.2.1]; rfl⟩

end entry

/-- **Backups**: which calls use them as a last resort. -/
theorem backups_are_last_resort_iff {α : Type*} [LinearOrder α] (loads : Loads α)
    (pool : UpstreamPool) (clientIp : Str) (protocol : BackendProtocol) (current : Backend) :
    (∀ draws, LastResort pool.backends anyBackend (pool.selectBackend loads draws).1) ∧
    ((∀ draws index, LastResort pool.backends anyBackend
        ({ pool with roundRobinIndex := index }.selectBackendForIp loads draws clientIp).1) ↔
      (pool.algorithm = .ipHash →
        ¬ (HasPrimary pool.backends anyBackend ∧ HasBackup pool.backends anyBackend))) ∧
    ((∀ algorithm draws index, LastResort pool.backends (speaks protocol)
        (({ pool with algorithm := algorithm, roundRobinIndex := index } :
          UpstreamPool).selectBackendForProtocol loads draws protocol).1) ↔
      ¬ (HasPrimary pool.backends (speaks protocol) ∧
        HasBackup pool.backends (speaks protocol))) ∧
    (∀ draws, LastResort pool.backends (differs current)
        (pool.selectNextBackend loads draws current).1 ↔
      ¬ (current.isBackup = true ∧ HasPrimary pool.backends (differs current))) :=
  ⟨fun draws => selectBackend_lastResort loads draws pool,
    selectBackendForIp_iff loads pool clientIp,
    selectBackendForProtocol_iff loads pool protocol,
    fun draws => selectNextBackend_iff loads draws pool current⟩

/-- Equal loads. -/
def equalLoads : Loads Nat where
  compositeLoad _ := 0
  cost _ := 0
  maxCost := 1
  cost_lt _ := Nat.zero_lt_one

/-- A primary and a backup. -/
def mixedPool : UpstreamPool where
  backends := [{ url := "http://127.0.0.1:8080".toList },
    { url := "http://127.0.0.1:9090".toList, isBackup := true }]
  algorithm := .roundRobin
  roundRobinIndex := 1

/-- The second call for a protocol gets the backup of an available primary. -/
theorem backup_beside_available_primary :
    ¬ (∀ (pool : UpstreamPool) (draws : Draws) (protocol : BackendProtocol),
      LastResort pool.backends (speaks protocol)
        (pool.selectBackendForProtocol equalLoads draws protocol).1) := by
  intro h
  refine (h mixedPool (drawsAt 0) .http).primary
    { url := "http://127.0.0.1:9090".toList, isBackup := true } (by decide) rfl ?_
  exact ⟨{ url := "http://127.0.0.1:8080".toList }, ⟨by decide, by decide, by decide⟩, rfl⟩

end Synvoid.Upstream
