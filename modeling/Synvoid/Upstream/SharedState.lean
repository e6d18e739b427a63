import Synvoid.Framework.Checked
import Synvoid.Framework.Region

/-! # Layouts of the shared tables

    Model of `ConnectionTableLayout` and `RateLimitTableLayout`
    (`synvoid-upstream/src/shared_state.rs`) on a target with 64-bit words. The
    worker processes write to the mapping at the offsets of the layouts and
    check nothing else. For all dimensions that the constructors accept, the
    elements are behind the header and inside the mapping, aligned, and apart
    from each other (`connection_layout_laid`, `rateLimit_layout_laid`).
-/

namespace Synvoid.Upstream

open Synvoid.Framework

/-! ## Section 1: The layouts -/

/-- `usize::checked_add`. -/
def checkedAddUsize (a b : Nat) : Option Nat := if a + b < 2 ^ 64 then some (a + b) else none

/-- `usize::checked_mul`. -/
def checkedMulUsize (a b : Nat) : Option Nat := if a * b < 2 ^ 64 then some (a * b) else none

/-- `ok_or_else` with an error of kind `InvalidInput`. -/
def orInvalidInput {α : Type} (value : Option α) (msg : String) : Except String α :=
  value.elim (.error msg) .ok

/-- `return Err(invalid_input(msg))` on a condition. -/
def rejectIf (condition : Prop) [Decidable condition] (msg : String) : Except String Unit :=
  if condition then .error msg else .ok ()

/-- The size and the alignment of `AtomicU64`, and of `AtomicUsize`. -/
def sizeOfAtomicU64 : Nat := 8

def sizeOfAtomicUsize : Nat := 8

def sizeOfAtomicU32 : Nat := 4

def connectionHeaderLen : Nat := 32

def rateLimitHeaderLen : Nat := 16

def maxTableWorkers : Nat := 4096

def maxTableBackends : Nat := 8192

def maxRateLimitSlots : Nat := 2 ^ 24

def maxMappingBytes : Nat := 512 * 2 ^ 20

structure ConnectionTableLayout where
  maxWorkers : Nat
  maxBackends : Nat
  heartbeatsLen : Nat
  connectionsLen : Nat
  connectionsBase : Nat
  totalLen : Nat
  deriving DecidableEq

namespace ConnectionTableLayout

def new (maxWorkers maxBackends : Nat) : Except String ConnectionTableLayout := do
  rejectIf (maxWorkers = 0 ∨ maxBackends = 0)
    "SharedConnectionTable requires nonzero max_workers and max_backends"
  rejectIf (maxWorkers > maxTableWorkers ∨ maxBackends > maxTableBackends)
    "SharedConnectionTable capacities exceed bounds (4096 workers, 8192 backends)"
  let heartbeatsLen ← orInvalidInput (checkedMulUsize maxWorkers sizeOfAtomicU64)
    "SharedConnectionTable heartbeats size overflow"
  let connectionsLen ← orInvalidInput
    ((checkedMulUsize maxWorkers maxBackends).bind fun v => checkedMulUsize v sizeOfAtomicUsize)
    "SharedConnectionTable connections size overflow"
  let connectionsBase ← orInvalidInput (checkedAddUsize connectionHeaderLen heartbeatsLen)
    "SharedConnectionTable region offset overflow"
  let totalLen ← orInvalidInput (checkedAddUsize connectionsBase connectionsLen)
    "SharedConnectionTable total size overflow"
  rejectIf (totalLen > maxMappingBytes)
    ("SharedConnectionTable total size " ++ toString totalLen ++
      " exceeds mapping ceiling 536870912")
  rejectIf (connectionHeaderLen % sizeOfAtomicU64 ≠ 0)
    "SharedConnectionTable header misaligned for heartbeats"
  rejectIf (connectionsBase % sizeOfAtomicUsize ≠ 0)
    "SharedConnectionTable connections region misaligned"
  return { maxWorkers, maxBackends, heartbeatsLen, connectionsLen, connectionsBase, totalLen }

variable (layout : ConnectionTableLayout)

def heartbeatOffset (workerId : Nat) : Option Nat :=
  if workerId ≥ layout.maxWorkers then none
  else do
    checkedAddUsize connectionHeaderLen (← checkedMulUsize workerId sizeOfAtomicU64)

def counterOffset (workerId backendIndex : Nat) : Option Nat :=
  if workerId ≥ layout.maxWorkers ∨ backendIndex ≥ layout.maxBackends then none
  else do
    let row ← checkedMulUsize workerId layout.maxBackends
    let index ← checkedAddUsize row backendIndex
    checkedAddUsize layout.connectionsBase (← checkedMulUsize index sizeOfAtomicUsize)

end ConnectionTableLayout

structure RateLimitTableLayout where
  numSlots : Nat
  counterLen : Nat
  dirtyWords : Nat
  dirtyLen : Nat
  minuteBase : Nat
  fiveMinBase : Nat
  dirtyBase : Nat
  totalLen : Nat
  deriving DecidableEq

namespace RateLimitTableLayout

def new (numSlots : Nat) : Except String RateLimitTableLayout := do
  rejectIf (numSlots = 0) "SharedRateLimitTable requires nonzero num_slots"
  rejectIf (numSlots > maxRateLimitSlots)
    "SharedRateLimitTable slots exceed bound 16777216"
  let counterLen ← orInvalidInput (checkedMulUsize numSlots sizeOfAtomicU32)
    "SharedRateLimitTable counter size overflow"
  let dirtyWords ← orInvalidInput ((checkedAddUsize numSlots 31).map (· / 32))
    "SharedRateLimitTable dirty-bits size overflow"
  let dirtyLen ← orInvalidInput (checkedMulUsize dirtyWords sizeOfAtomicU32)
    "SharedRateLimitTable dirty-bits size overflow"
  let secondBase := rateLimitHeaderLen
  let minuteBase ← orInvalidInput (checkedAddUsize secondBase counterLen)
    "SharedRateLimitTable region offset overflow"
  let fiveMinBase ← orInvalidInput (checkedAddUsize minuteBase counterLen)
    "SharedRateLimitTable region offset overflow"
  let dirtyBase ← orInvalidInput (checkedAddUsize fiveMinBase counterLen)
    "SharedRateLimitTable region offset overflow"
  let totalLen ← orInvalidInput (checkedAddUsize dirtyBase dirtyLen)
    "SharedRateLimitTable total size overflow"
  rejectIf (totalLen > maxMappingBytes)
    ("SharedRateLimitTable total size " ++ toString totalLen ++
      " exceeds mapping ceiling 536870912")
  rejectIf ([secondBase, minuteBase, fiveMinBase, dirtyBase].any (· % sizeOfAtomicU32 ≠ 0))
    "SharedRateLimitTable region misaligned for AtomicU32"
  return { numSlots, counterLen, dirtyWords, dirtyLen, minuteBase, fiveMinBase,
           dirtyBase, totalLen }

def secondBase (_ : RateLimitTableLayout) : Nat := rateLimitHeaderLen

variable (layout : RateLimitTableLayout)

def counterOffset (base slot : Nat) : Option Nat :=
  if slot ≥ layout.numSlots then none
  else do
    checkedAddUsize base (← checkedMulUsize slot sizeOfAtomicU32)

def dirtyOffset (wordIdx : Nat) : Option Nat :=
  if wordIdx ≥ layout.dirtyWords then none
  else do
    checkedAddUsize layout.dirtyBase (← checkedMulUsize wordIdx sizeOfAtomicU32)

end RateLimitTableLayout

/-! ## Section 2: What the constructors accept -/

theorem checkedAddUsize_eq_some {a b c : Nat} :
    checkedAddUsize a b = some c ↔ a + b = c ∧ c < 2 ^ 64 := by
  unfold checkedAddUsize
  split
  · simp only [Option.some.injEq]
    omega
  · simp only [reduceCtorEq, false_iff]
    omega

theorem checkedMulUsize_eq_some {a b c : Nat} :
    checkedMulUsize a b = some c ↔ a * b = c ∧ c < 2 ^ 64 := by
  unfold checkedMulUsize
  split
  · simp only [Option.some.injEq]
    omega
  · simp only [reduceCtorEq, false_iff]
    omega

theorem orInvalidInput_eq_ok {α : Type} {value : Option α} {msg : String} {a : α} :
    orInvalidInput value msg = .ok a ↔ value = some a := by
  cases value <;> simp [orInvalidInput]

theorem rejectIf_eq_ok {condition : Prop} [Decidable condition] {msg : String} {u : Unit}
    (h : rejectIf condition msg = .ok u) : ¬ condition := by
  unfold rejectIf at h
  split at h
  · cases h
  · assumption

theorem ConnectionTableLayout.new_eq_ok {maxWorkers maxBackends : Nat}
    {layout : ConnectionTableLayout} (h : new maxWorkers maxBackends = .ok layout) :
    layout = ⟨maxWorkers, maxBackends, maxWorkers * 8, maxWorkers * maxBackends * 8,
        32 + maxWorkers * 8, 32 + maxWorkers * 8 + maxWorkers * maxBackends * 8⟩ ∧
      layout.totalLen ≤ maxMappingBytes := by
  obtain ⟨-, -, h⟩ := bind_eq_ok h
  obtain ⟨-, -, h⟩ := bind_eq_ok h
  obtain ⟨heartbeatsLen, hheartbeats, h⟩ := bind_eq_ok h
  obtain ⟨connectionsLen, hconnections, h⟩ := bind_eq_ok h
  obtain ⟨connectionsBase, hbase, h⟩ := bind_eq_ok h
  obtain ⟨totalLen, htotal, h⟩ := bind_eq_ok h
  obtain ⟨_, hceiling, h⟩ := bind_eq_ok h
  obtain ⟨-, -, h⟩ := bind_eq_ok h
  obtain ⟨-, -, h⟩ := bind_eq_ok h
  rw [orInvalidInput_eq_ok] at hheartbeats hconnections hbase htotal
  obtain ⟨product, hproduct, hconnections⟩ := Option.bind_eq_some_iff.mp hconnections
  obtain ⟨rfl, -⟩ := checkedMulUsize_eq_some.mp hheartbeats
  obtain ⟨rfl, -⟩ := checkedMulUsize_eq_some.mp hproduct
  obtain ⟨rfl, -⟩ := checkedMulUsize_eq_some.mp hconnections
  obtain ⟨rfl, -⟩ := checkedAddUsize_eq_some.mp hbase
  obtain ⟨rfl, -⟩ := checkedAddUsize_eq_some.mp htotal
  obtain rfl := Except.ok.inj h
  exact ⟨rfl, Nat.le_of_not_lt (rejectIf_eq_ok hceiling)⟩

theorem RateLimitTableLayout.new_eq_ok {numSlots : Nat} {layout : RateLimitTableLayout}
    (h : new numSlots = .ok layout) :
    layout = ⟨numSlots, numSlots * 4, (numSlots + 31) / 32, (numSlots + 31) / 32 * 4,
        16 + numSlots * 4, 16 + numSlots * 4 + numSlots * 4,
        16 + numSlots * 4 + numSlots * 4 + numSlots * 4,
        16 + numSlots * 4 + numSlots * 4 + numSlots * 4 + (numSlots + 31) / 32 * 4⟩ ∧
      layout.totalLen ≤ maxMappingBytes := by
  obtain ⟨-, -, h⟩ := bind_eq_ok h
  obtain ⟨-, -, h⟩ := bind_eq_ok h
  obtain ⟨counterLen, hcounter, h⟩ := bind_eq_ok h
  obtain ⟨dirtyWords, hwords, h⟩ := bind_eq_ok h
  obtain ⟨dirtyLen, hdirty, h⟩ := bind_eq_ok h
  obtain ⟨minuteBase, hminute, h⟩ := bind_eq_ok h
  obtain ⟨fiveMinBase, hfive, h⟩ := bind_eq_ok h
  obtain ⟨dirtyBase, hbase, h⟩ := bind_eq_ok h
  obtain ⟨totalLen, htotal, h⟩ := bind_eq_ok h
  obtain ⟨_, hceiling, h⟩ := bind_eq_ok h
  obtain ⟨-, -, h⟩ := bind_eq_ok h
  rw [orInvalidInput_eq_ok] at hcounter hwords hdirty hminute hfive hbase htotal
  obtain ⟨rounded, hrounded, rfl⟩ := Option.map_eq_some_iff.mp hwords
  obtain ⟨rfl, -⟩ := checkedMulUsize_eq_some.mp hcounter
  obtain ⟨rfl, -⟩ := checkedAddUsize_eq_some.mp hrounded
  obtain ⟨rfl, -⟩ := checkedMulUsize_eq_some.mp hdirty
  obtain ⟨rfl, -⟩ := checkedAddUsize_eq_some.mp hminute
  obtain ⟨rfl, -⟩ := checkedAddUsize_eq_some.mp hfive
  obtain ⟨rfl, -⟩ := checkedAddUsize_eq_some.mp hbase
  obtain ⟨rfl, -⟩ := checkedAddUsize_eq_some.mp htotal
  obtain rfl := Except.ok.inj h
  exact ⟨rfl, Nat.le_of_not_lt (rejectIf_eq_ok hceiling)⟩

/-! ## Section 3: The elements -/

inductive ConnectionElement where
  | heartbeat (workerId : Nat)
  | counter (workerId backendIndex : Nat)

inductive RateLimitElement where
  | second (slot : Nat)
  | minute (slot : Nat)
  | fiveMin (slot : Nat)
  | dirty (wordIdx : Nat)

namespace ConnectionElement

def size : ConnectionElement → Nat
  | .heartbeat _ => sizeOfAtomicU64
  | .counter _ _ => sizeOfAtomicUsize

def offset (layout : ConnectionTableLayout) : ConnectionElement → Option Nat
  | .heartbeat workerId => layout.heartbeatOffset workerId
  | .counter workerId backendIndex => layout.counterOffset workerId backendIndex

def InRange (maxWorkers maxBackends : Nat) : ConnectionElement → Prop
  | .heartbeat workerId => workerId < maxWorkers
  | .counter workerId backendIndex => workerId < maxWorkers ∧ backendIndex < maxBackends

/-- The region of an element, and its index there. -/
def place (maxWorkers maxBackends : Nat) : ConnectionElement → Region × Nat
  | .heartbeat workerId => (⟨32, 8, maxWorkers⟩, workerId)
  | .counter workerId backendIndex =>
      (⟨32 + maxWorkers * 8, 8, maxWorkers * maxBackends⟩, workerId * maxBackends + backendIndex)

end ConnectionElement

namespace RateLimitElement

def size (_ : RateLimitElement) : Nat := sizeOfAtomicU32

def offset (layout : RateLimitTableLayout) : RateLimitElement → Option Nat
  | .second slot => layout.counterOffset layout.secondBase slot
  | .minute slot => layout.counterOffset layout.minuteBase slot
  | .fiveMin slot => layout.counterOffset layout.fiveMinBase slot
  | .dirty wordIdx => layout.dirtyOffset wordIdx

def InRange (numSlots : Nat) : RateLimitElement → Prop
  | .second slot | .minute slot | .fiveMin slot => slot < numSlots
  | .dirty wordIdx => wordIdx < (numSlots + 31) / 32

def place (numSlots : Nat) : RateLimitElement → Region × Nat
  | .second slot => (⟨16, 4, numSlots⟩, slot)
  | .minute slot => (⟨16 + numSlots * 4, 4, numSlots⟩, slot)
  | .fiveMin slot => (⟨16 + numSlots * 4 + numSlots * 4, 4, numSlots⟩, slot)
  | .dirty wordIdx =>
      (⟨16 + numSlots * 4 + numSlots * 4 + numSlots * 4, 4, (numSlots + 31) / 32⟩, wordIdx)

end RateLimitElement

/-- An offset that the guarded arithmetic of the layouts computes without overflow. -/
theorem elementOffset_eq_some {base count size k o : Nat} (h : base + count * size < 2 ^ 64)
    (hk : k < count) :
    ((checkedMulUsize k size).bind fun bytes => checkedAddUsize base bytes) = some o ↔
      o = (⟨base, size, count⟩ : Region).offset k := by
  have hle : k * size ≤ count * size := Nat.mul_le_mul_right _ (Nat.le_of_lt hk)
  unfold checkedMulUsize checkedAddUsize Region.offset
  rw [if_pos (by omega), Option.bind_some, if_pos (by omega), Option.some.injEq, eq_comm]

theorem ConnectionElement.offset_eq_some {maxWorkers maxBackends : Nat}
    {layout : ConnectionTableLayout}
    (h : ConnectionTableLayout.new maxWorkers maxBackends = .ok layout)
    (element : ConnectionElement) (o : Nat) :
    element.offset layout = some o ↔ element.InRange maxWorkers maxBackends ∧
      o = (element.place maxWorkers maxBackends).1.offset
        (element.place maxWorkers maxBackends).2 := by
  obtain ⟨rfl, hceiling⟩ := ConnectionTableLayout.new_eq_ok h
  have hlt : 32 + maxWorkers * 8 + maxWorkers * maxBackends * 8 < 2 ^ 64 :=
    Nat.lt_of_le_of_lt hceiling (by decide)
  cases element with
  | heartbeat workerId =>
    show ConnectionTableLayout.heartbeatOffset _ workerId = some o ↔ workerId < maxWorkers ∧ _
    unfold ConnectionTableLayout.heartbeatOffset
    by_cases hrange : workerId < maxWorkers
    · rw [if_neg (by simpa using hrange)]
      refine (elementOffset_eq_some (show 32 + maxWorkers * 8 < 2 ^ 64 by omega) hrange).trans ?_
      exact (and_iff_right hrange).symm
    · rw [if_pos (by simpa using hrange)]
      exact iff_of_false (by simp) (fun hand => hrange hand.1)
  | counter workerId backendIndex =>
    show ConnectionTableLayout.counterOffset _ workerId backendIndex = some o ↔
      (workerId < maxWorkers ∧ backendIndex < maxBackends) ∧ _
    unfold ConnectionTableLayout.counterOffset
    by_cases hrange : workerId < maxWorkers ∧ backendIndex < maxBackends
    · have hindex := row_lt hrange.1 hrange.2
      have hrow : checkedMulUsize workerId maxBackends = some (workerId * maxBackends) :=
        checkedMulUsize_eq_some.mpr ⟨rfl, by omega⟩
      have hadd : checkedAddUsize (workerId * maxBackends) backendIndex =
          some (workerId * maxBackends + backendIndex) :=
        checkedAddUsize_eq_some.mpr ⟨rfl, by omega⟩
      rw [if_neg (by simp only; omega)]
      simp only [hrow, hadd, Option.bind_eq_bind, Option.bind_some]
      refine (elementOffset_eq_some hlt hindex).trans ?_
      exact (and_iff_right hrange).symm
    · rw [if_pos (by simp only; omega)]
      exact iff_of_false (by simp) (fun hand => hrange hand.1)

theorem connection_layout_laid {maxWorkers maxBackends : Nat} {layout : ConnectionTableLayout}
    (h : ConnectionTableLayout.new maxWorkers maxBackends = .ok layout) :
    Laid connectionHeaderLen layout.totalLen ConnectionElement.size
      (ConnectionElement.offset layout) (ConnectionElement.InRange maxWorkers maxBackends) := by
  refine Laid.of_regions (ConnectionElement.place maxWorkers maxBackends)
    (ConnectionElement.offset_eq_some h) ?_ ?_ ?_
  · rintro (workerId | ⟨workerId, backendIndex⟩) hrange
    · exact hrange
    · exact row_lt hrange.1 hrange.2
  · obtain ⟨rfl, -⟩ := ConnectionTableLayout.new_eq_ok h
    rintro (workerId | ⟨workerId, backendIndex⟩)
    · exact ⟨Nat.le_refl _, Nat.le_add_right _ _, rfl, show 8 ∣ 32 by decide⟩
    · refine ⟨Nat.le_add_right _ _, Nat.le_refl _, rfl, ?_⟩
      exact Nat.dvd_add (show 8 ∣ 32 by decide) (Nat.dvd_mul_left _ _)
  · rintro (worker | ⟨worker, backend⟩) (worker' | ⟨worker', backend'⟩) hrange hrange'
    · exact .inl ⟨rfl, fun heq => congrArg ConnectionElement.heartbeat heq⟩
    · exact .inr (.inl (Nat.le_refl _))
    · exact .inr (.inr (Nat.le_refl _))
    · refine .inl ⟨rfl, fun heq => ?_⟩
      obtain ⟨rfl, rfl⟩ := row_injective hrange.2 hrange'.2 heq
      rfl

theorem RateLimitTableLayout.counterOffset_eq_some {layout : RateLimitTableLayout}
    {base slot o : Nat}
    (h : base + layout.numSlots * 4 < 2 ^ 64) :
    layout.counterOffset base slot = some o ↔
      slot < layout.numSlots ∧ o = (⟨base, 4, layout.numSlots⟩ : Region).offset slot := by
  unfold counterOffset
  by_cases hrange : slot < layout.numSlots
  · rw [if_neg (by omega)]
    refine (elementOffset_eq_some h hrange).trans ?_
    exact (and_iff_right hrange).symm
  · rw [if_pos (by omega)]
    exact iff_of_false (by simp) (fun hand => hrange hand.1)

theorem RateLimitElement.offset_eq_some {numSlots : Nat} {layout : RateLimitTableLayout}
    (h : RateLimitTableLayout.new numSlots = .ok layout) (element : RateLimitElement) (o : Nat) :
    element.offset layout = some o ↔ element.InRange numSlots ∧
      o = (element.place numSlots).1.offset (element.place numSlots).2 := by
  obtain ⟨rfl, hceiling⟩ := RateLimitTableLayout.new_eq_ok h
  have hlt : 16 + numSlots * 4 + numSlots * 4 + numSlots * 4 + (numSlots + 31) / 32 * 4 < 2 ^ 64 :=
    Nat.lt_of_le_of_lt hceiling (by decide)
  cases element with
  | second slot =>
    exact RateLimitTableLayout.counterOffset_eq_some
      (show 16 + numSlots * 4 < 2 ^ 64 by omega)
  | minute slot =>
    exact RateLimitTableLayout.counterOffset_eq_some
      (show 16 + numSlots * 4 + numSlots * 4 < 2 ^ 64 by omega)
  | fiveMin slot =>
    exact RateLimitTableLayout.counterOffset_eq_some
      (show 16 + numSlots * 4 + numSlots * 4 + numSlots * 4 < 2 ^ 64 by omega)
  | dirty wordIdx =>
    show RateLimitTableLayout.dirtyOffset _ wordIdx = some o ↔ wordIdx < (numSlots + 31) / 32 ∧ _
    unfold RateLimitTableLayout.dirtyOffset
    by_cases hrange : wordIdx < (numSlots + 31) / 32
    · rw [if_neg (by simpa using hrange)]
      refine (elementOffset_eq_some hlt hrange).trans ?_
      exact (and_iff_right hrange).symm
    · rw [if_pos (by simpa using hrange)]
      exact iff_of_false (by simp) (fun hand => hrange hand.1)

theorem rateLimit_layout_laid {numSlots : Nat} {layout : RateLimitTableLayout}
    (h : RateLimitTableLayout.new numSlots = .ok layout) :
    Laid rateLimitHeaderLen layout.totalLen RateLimitElement.size
      (RateLimitElement.offset layout) (RateLimitElement.InRange numSlots) := by
  refine Laid.of_regions (RateLimitElement.place numSlots) (RateLimitElement.offset_eq_some h)
    ?_ ?_ ?_
  · rintro (slot | slot | slot | wordIdx) hrange <;> exact hrange
  · obtain ⟨rfl, -⟩ := RateLimitTableLayout.new_eq_ok h
    -- the bases are 16 and then multiples of the counter region apart
    have hcounters : 4 ∣ numSlots * 4 := Nat.dvd_mul_left _ _
    have hsecond : 4 ∣ 16 := by decide
    have hminute := Nat.dvd_add hsecond hcounters
    have hfive := Nat.dvd_add hminute hcounters
    have hdirty := Nat.dvd_add hfive hcounters
    rintro (slot | slot | slot | wordIdx) <;>
      simp only [RateLimitElement.place, Region.limit, rateLimitHeaderLen]
    · exact ⟨by omega, by omega, rfl, hsecond⟩
    · exact ⟨by omega, by omega, rfl, hminute⟩
    · exact ⟨by omega, by omega, rfl, hfive⟩
    · exact ⟨by omega, by omega, rfl, hdirty⟩
  · rintro (slot | slot | slot | word) (slot' | slot' | slot' | word') - -
    case second.second => exact .inl ⟨rfl, fun heq => congrArg RateLimitElement.second heq⟩
    case minute.minute => exact .inl ⟨rfl, fun heq => congrArg RateLimitElement.minute heq⟩
    case fiveMin.fiveMin => exact .inl ⟨rfl, fun heq => congrArg RateLimitElement.fiveMin heq⟩
    case dirty.dirty => exact .inl ⟨rfl, fun heq => congrArg RateLimitElement.dirty heq⟩
    all_goals
      right
      simp only [RateLimitElement.place, Region.limit]
      omega

/-- The elements of both tables are laid out, for all dimensions that are accepted. -/
theorem layouts_laid :
    (∀ maxWorkers maxBackends layout,
      ConnectionTableLayout.new maxWorkers maxBackends = .ok layout →
        Laid connectionHeaderLen layout.totalLen ConnectionElement.size
          (ConnectionElement.offset layout) (ConnectionElement.InRange maxWorkers maxBackends)) ∧
    ∀ numSlots layout, RateLimitTableLayout.new numSlots = .ok layout →
      Laid rateLimitHeaderLen layout.totalLen RateLimitElement.size
        (RateLimitElement.offset layout) (RateLimitElement.InRange numSlots) :=
  ⟨fun _ _ _ h => connection_layout_laid h, fun _ _ h => rateLimit_layout_laid h⟩

/-- Two workers and three backends, and forty slots with two dirty words. -/
theorem small_layouts_laid :
    Laid 32 96 ConnectionElement.size
        (ConnectionElement.offset ⟨2, 3, 16, 48, 48, 96⟩) (ConnectionElement.InRange 2 3) ∧
      Laid 16 504 RateLimitElement.size
        (RateLimitElement.offset ⟨40, 160, 2, 8, 176, 336, 496, 504⟩)
        (RateLimitElement.InRange 40) :=
  ⟨layouts_laid.1 2 3 _ rfl, layouts_laid.2 40 _ rfl⟩

end Synvoid.Upstream
