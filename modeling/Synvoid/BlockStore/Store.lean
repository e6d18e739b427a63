import Synvoid.BlockStore.Ordering
import Synvoid.Framework.FifoCache
import Synvoid.Framework.Table
import Mathlib.Data.List.MinMax

/-! # The block store

    The store keeps block entries of IP addresses and of mesh ids, each under a
    text that is made of the scope and the identifier; it is a table for each
    kind, whose order of entries stands for the order in which the shards are
    scanned. Beside them it keeps, for a bounded number of targets, what was
    last applied to the target.

    An operation reads the clock once. What is written to disk, counted as a
    metric or handed to the mitigation provider is left out.
-/

namespace Synvoid.BlockStore

open Synvoid.Framework

/-! ## Section 1: State -/

def u64Max : Nat := 18446744073709551615

def seenEventsMax : Nat := 10000

def targetStateMax : Nat := 10000

def defaultMaxEntries : Nat := 500000

def globalScope : Str := "global".toList

/-- `BlockEntry` and `MeshBlockEntry`; `identifier` is the field `ip` of the one
    and `mesh_id` of the other. -/
structure BlockEntry where
  identifier : Str
  reason : Str
  blockedAt : Nat
  banExpireSeconds : Nat
  siteScope : Str
  accessCount : Nat
  lastAccess : Nat
  provenance : BlockProvenance
  deriving DecidableEq

/-- `new_with_provenance` and `MeshBlockEntry::new`. -/
def BlockEntry.new (identifier reason : Str) (banExpireSeconds : Nat) (siteScope : Str)
    (blockedAt : Nat) (provenance : BlockProvenance) : BlockEntry where
  identifier := identifier
  reason := reason
  blockedAt := blockedAt
  banExpireSeconds := banExpireSeconds
  siteScope := siteScope
  accessCount := 0
  lastAccess := blockedAt
  provenance := provenance

/-- `BlockEntry::key` and `MeshBlockEntry::key`. -/
def entryKey (kind : BlockTargetKind) (siteScope identifier : Str) : Str :=
  match kind with
  | .ip => "block:".toList ++ siteScope ++ ":".toList ++ identifier
  | .meshId => "mesh_block:".toList ++ siteScope ++ ":".toList ++ identifier

/-- `is_expired`; the end of a mesh entry's time is added without a check. -/
def BlockEntry.isExpired (kind : BlockTargetKind) (entry : BlockEntry) (now : Nat) : Bool :=
  if entry.banExpireSeconds = 0 then false
  else
    match kind with
    | .ip => now > min (entry.blockedAt + entry.banExpireSeconds) u64Max
    | .meshId => now > (entry.blockedAt + entry.banExpireSeconds) % (u64Max + 1)

/-- `update_access`. -/
def BlockEntry.updateAccess (entry : BlockEntry) (now : Nat) : BlockEntry :=
  { entry with accessCount := min (entry.accessCount + 1) u64Max, lastAccess := now }

/-- All shards of one kind, with the count of their entries. -/
structure Shards where
  entries : Table Str BlockEntry
  total : Nat

/-- `BlocklistEventLog`. -/
structure BlocklistEventLog where
  events : List BlocklistEvent
  seenIds : List Str
  maxEvents : Nat
  nextSequence : Nat

/-- The fields of `DenyListLimitsConfig` that the store reads. -/
structure DenyListLimitsConfig where
  maxEntries : Nat
  targetStatePersist : Bool
  targetStateTtlSecs : Nat

/-- `BlockStore`. A configured capacity of zero is replaced by the default when
    the store is made. -/
structure Store where
  enabled : Bool
  config : DenyListLimitsConfig
  maxEntries_pos : 0 < config.maxEntries
  shards : Shards
  meshShards : Shards
  seenEvents : FifoCache Str Unit seenEventsMax
  targetState : FifoCache BlocklistTargetKey LastAppliedBlocklistEvent targetStateMax
  eventLog : BlocklistEventLog

def Shards.empty : Shards := ⟨∅, 0⟩

/-- `BlocklistEventLog::with_defaults`. -/
def BlocklistEventLog.withDefaults : BlocklistEventLog := ⟨[], [], 10000, 0⟩

/-- `BlockStore::new` without a data directory. -/
def Store.new (enabled : Bool) (config : DenyListLimitsConfig) : Store where
  enabled := enabled
  config := { config with
    maxEntries := if config.maxEntries > 0 then config.maxEntries else defaultMaxEntries }
  maxEntries_pos := by
    show 0 < if config.maxEntries > 0 then config.maxEntries else defaultMaxEntries
    split
    · assumption
    · decide
  shards := .empty
  meshShards := .empty
  seenEvents := .empty
  targetState := .empty
  eventLog := .withDefaults

/-! ## Section 2: Shards -/

namespace Shards

/-- `evict_lru`: drops the entry that was accessed least recently; `none` if
    there is none. -/
def evictLru (s : Shards) : Option Shards :=
  match s.entries.entries.argmin fun e => e.2.lastAccess with
  | some e =>
      if e.2.lastAccess < u64Max then
        some { entries := s.entries.erase e.1, total := s.total - 1 }
      else none
  | none => none

/-- Puts an entry under its key. A new key needs room, which may be made by an
    eviction. -/
def store (s : Shards) (maxEntries : Nat) (key : Str) (entry : BlockEntry) : Option Shards :=
  let isNew := (s.entries.lookup key).isNone
  match if isNew = true ∧ s.total ≥ maxEntries then s.evictLru else some s with
  | none => none
  | some room => some {
      entries := room.entries.insert key entry
      total := if isNew then room.total + 1 else room.total }

/-- Removes an entry, and says whether there was one. -/
def remove (s : Shards) (key : Str) : Bool × Shards :=
  if (s.entries.lookup key).isSome then
    (true, { entries := s.entries.erase key, total := s.total - 1 })
  else (false, s)

/-- The entry of a key if it has not expired, with its access noted; an expired
    one is removed. -/
def lookupLive (s : Shards) (kind : BlockTargetKind) (now : Nat) (key : Str) :
    Option BlockEntry × Shards :=
  match s.entries.lookup key with
  | none => (none, s)
  | some entry =>
      if entry.isExpired kind now then (none, (s.remove key).2)
      else
        (some (entry.updateAccess now),
          { s with entries := s.entries.insert key (entry.updateAccess now) })

/-- There is room for the key, or an entry can be evicted. -/
def hasRoom (s : Shards) (maxEntries : Nat) (key : Str) : Bool :=
  (s.entries.lookup key).isSome || s.total < maxEntries || s.evictLru.isSome

theorem hasRoom_of_store {s table : Shards} {maxEntries : Nat} {key : Str} {entry : BlockEntry}
    (h : s.store maxEntries key entry = some table) : s.hasRoom maxEntries key = true := by
  unfold store at h
  unfold hasRoom
  cases hlookup : s.entries.lookup key with
  | some _ => simp
  | none =>
    by_cases hfull : s.total ≥ maxEntries
    · cases hevict : s.evictLru with
      | none => simp [hlookup, hfull, hevict] at h
      | some _ => simp
    · simp [Nat.lt_of_not_le hfull]

theorem store_of_room {s : Shards} {maxEntries : Nat} {key : Str}
    (hroom : (s.entries.lookup key).isSome = true ∨ s.total < maxEntries) (entry : BlockEntry) :
    s.store maxEntries key entry = some {
      entries := s.entries.insert key entry
      total := if (s.entries.lookup key).isNone then s.total + 1 else s.total } := by
  have hno : ¬ ((s.entries.lookup key).isNone = true ∧ s.total ≥ maxEntries) := by
    rintro ⟨hnone, hfull⟩
    rcases hroom with hsome | hlt
    · rw [Option.isNone_iff_eq_none.mp hnone] at hsome
      cases hsome
    · omega
  unfold store
  simp only [if_neg hno]

theorem lookup_remove (s : Shards) (key k : Str) :
    (s.remove key).2.entries.lookup k = if k = key then none else s.entries.lookup k := by
  unfold remove
  split
  · exact Table.lookup_erase_eq ..
  · next habsent =>
    by_cases hk : k = key
    · rw [if_pos hk, hk]
      exact Option.not_isSome_iff_eq_none.mp habsent
    · rw [if_neg hk]

theorem lookupLive_of_none {s : Shards} {key : Str} (h : s.entries.lookup key = none)
    (kind : BlockTargetKind) (now : Nat) : s.lookupLive kind now key = (none, s) := by
  unfold lookupLive
  rw [h]

end Shards

/-- `BlocklistEventLog::append`: the sequence number of the event, unless its
    id is in the log. -/
def BlocklistEventLog.append (log : BlocklistEventLog) (event : BlocklistEvent) :
    Option Nat × BlocklistEventLog :=
  if event.eventId.any log.seenIds.contains then (none, log)
  else
    let events := log.events ++ [event]
    let evicted := (events.take (events.length - log.maxEvents)).filterMap (·.eventId)
    (some log.nextSequence,
      { log with
        events := events.drop (events.length - log.maxEvents)
        seenIds := (event.eventId.toList ++ log.seenIds).filter fun id => !evicted.contains id
        nextSequence := min (log.nextSequence + 1) u64Max })

/-! ## Section 3: Operations -/

namespace Store

/-- The shards of a kind. -/
def table (s : Store) : BlockTargetKind → Shards
  | .ip => s.shards
  | .meshId => s.meshShards

def setTable (s : Store) (kind : BlockTargetKind) (table : Shards) : Store :=
  match kind with
  | .ip => { s with shards := table }
  | .meshId => { s with meshShards := table }

def recordTargetState (s : Store) (key : BlocklistTargetKey) (state : LastAppliedBlocklistEvent) :
    Store :=
  { s with targetState := s.targetState.insert key state }

/-- What a direct operation leaves of itself: neither a version nor a position
    or a logical time. -/
def directRecord (operation : BlocklistOperation) (timestamp : Nat) (sourceNode : Option Str)
    (provenance : BlockProvenance) : LastAppliedBlocklistEvent where
  timestamp := timestamp
  version := none
  eventId := none
  operation := operation
  sourceNode := sourceNode
  provenance := provenance
  sourceSequence := none
  logicalTime := none

def recordTargetStateFromDirectOp (s : Store) (kind : BlockTargetKind) (siteScope identifier : Str)
    (operation : BlocklistOperation) (timestamp : Nat) (sourceNode : Option Str)
    (provenance : BlockProvenance) : Store :=
  if s.config.targetStatePersist then
    s.recordTargetState ⟨kind, siteScope, identifier⟩
      (directRecord operation timestamp sourceNode provenance)
  else s

/-- Blocks a target of either kind. -/
def blockTarget (kind : BlockTargetKind) (s : Store) (now : Nat) (identifier reason : Str)
    (banExpireSeconds : Nat) (siteScope : Str) (provenance : BlockProvenance) : Bool × Store :=
  if s.enabled then
    match (s.table kind).store s.config.maxEntries (entryKey kind siteScope identifier)
        (.new identifier reason banExpireSeconds siteScope now provenance) with
    | none => (false, s)
    | some table =>
        (true, (s.setTable kind table).recordTargetStateFromDirectOp kind siteScope identifier
          .block now none provenance)
  else (false, s)

def blockIpWithProvenance (s : Store) (now : Nat) (ip : IpAddr) (reason : Str)
    (banExpireSeconds : Nat) (siteScope : Str) (provenance : BlockProvenance) : Bool × Store :=
  blockTarget .ip s now ip.display reason banExpireSeconds siteScope provenance

def blockMeshIdWithProvenance (s : Store) (now : Nat) (meshId reason : Str)
    (banExpireSeconds : Nat) (siteScope : Str) (provenance : BlockProvenance) : Bool × Store :=
  blockTarget .meshId s now meshId reason banExpireSeconds siteScope provenance

/-- Removes the entry of a scope, and that of the global scope with it. -/
def removeScoped (kind : BlockTargetKind) (table : Shards) (siteScope identifier : Str) :
    Bool × Shards :=
  let (removed, table) := table.remove (entryKey kind siteScope identifier)
  if siteScope ≠ globalScope then
    let (removedGlobal, table) := table.remove (entryKey kind globalScope identifier)
    (removed || removedGlobal, table)
  else (removed, table)

/-- Unblocks a target of either kind. The operation is recorded also if there
    was no entry. -/
def unblockTarget (kind : BlockTargetKind) (s : Store) (now : Nat) (identifier siteScope : Str) :
    Bool × Store :=
  if s.enabled then
    let (removed, table) := removeScoped kind (s.table kind) siteScope identifier
    (removed, (s.setTable kind table).recordTargetStateFromDirectOp kind siteScope identifier
      .unblock now none .default)
  else (false, s)

def unblockIp (s : Store) (now : Nat) (ip : IpAddr) (siteScope : Str) : Bool × Store :=
  unblockTarget .ip s now ip.display siteScope

def unblockMeshId (s : Store) (now : Nat) (meshId siteScope : Str) : Bool × Store :=
  unblockTarget .meshId s now meshId siteScope

/-- The entry that blocks a target of either kind: its own or the global one. -/
def isTargetBlocked (kind : BlockTargetKind) (s : Store) (now : Nat) (identifier siteScope : Str) :
    Option BlockEntry × Store :=
  if s.enabled then
    match (s.table kind).lookupLive kind now (entryKey kind siteScope identifier) with
    | (some entry, table) => (some entry, s.setTable kind table)
    | (none, table) =>
        if siteScope ≠ globalScope then
          let (entry, table) := table.lookupLive kind now (entryKey kind globalScope identifier)
          (entry, s.setTable kind table)
        else (none, s.setTable kind table)
  else (none, s)

def isBlocked (s : Store) (now : Nat) (ip : IpAddr) (siteScope : Str) :
    Option BlockEntry × Store :=
  isTargetBlocked .ip s now ip.display siteScope

def isMeshIdBlocked (s : Store) (now : Nat) (meshId siteScope : Str) :
    Option BlockEntry × Store :=
  isTargetBlocked .meshId s now meshId siteScope

end Store

/-! ## Section 4: Events -/

inductive BlocklistApplyResult where
  | applied
  | noopDuplicate
  | ignoredStale
  | invalidTarget
  | storeDisabled
  deriving DecidableEq

namespace Store

/-- The target is a mesh id or parses as an address. -/
def validTarget (event : BlocklistEvent) : Bool :=
  match event.operation, event.targetKind with
  | .block, .ip | .unblock, .ip => (IpAddr.parse event.identifier).isSome
  | .block, .meshId | .unblock, .meshId => true

/-- Step 2 of `apply_blocklist_event`: the store with the id noted, unless it was
    seen before. -/
def noteEventId (s : Store) (event : BlocklistEvent) : Option Store :=
  match event.eventId with
  | some id =>
      if s.seenEvents.contains id then none
      else some { s with seenEvents := s.seenEvents.insert id () }
  | none => some s

/-- Step 3: something was applied to the target that the event is not newer than. -/
def isStale (s : Store) (event : BlocklistEvent) : Bool :=
  (s.targetState.get event.targetKey).any fun last => !event.lastApplied.isNewerThan last

/-- Step 4. -/
def mutateForEvent (s : Store) (now : Nat) (event : BlocklistEvent) :
    BlocklistApplyResult × Store :=
  let reason := event.reason.getD "mesh_event".toList
  let banSecs := event.ttlSecs.getD 3600
  let blocked : Bool × Store → BlocklistApplyResult × Store :=
    fun (applied, s) => (if applied then .applied else .storeDisabled, s)
  match event.operation, event.targetKind with
  | .block, .ip =>
      match IpAddr.parse event.identifier with
      | none => (.invalidTarget, s)
      | some ip => blocked (s.blockIpWithProvenance now ip reason banSecs event.siteScope
          event.provenance)
  | .unblock, .ip =>
      match IpAddr.parse event.identifier with
      | none => (.invalidTarget, s)
      | some ip => (.applied, (s.unblockIp now ip event.siteScope).2)
  | .block, .meshId =>
      blocked (s.blockMeshIdWithProvenance now event.identifier reason banSecs event.siteScope
        event.provenance)
  | .unblock, .meshId => (.applied, (s.unblockMeshId now event.identifier event.siteScope).2)

/-- Steps 5 and 6: an applied event goes to its target's state and to the log. -/
def recordEvent (s : Store) (event : BlocklistEvent) : Store :=
  let s := s.recordTargetState event.targetKey event.lastApplied
  { s with eventLog := (s.eventLog.append event).2 }

/-- Steps 3 to 6: an event whose id is new. -/
def applyUnseen (s : Store) (now : Nat) (event : BlocklistEvent) : BlocklistApplyResult × Store :=
  if s.isStale event then (.ignoredStale, s)
  else
    match s.mutateForEvent now event with
    | (.applied, s) => (.applied, s.recordEvent event)
    | (result, s) => (result, s)

/-- `apply_blocklist_event`. -/
def applyBlocklistEvent (s : Store) (now : Nat) (event : BlocklistEvent) :
    BlocklistApplyResult × Store :=
  if !s.enabled then (.storeDisabled, s)
  else if !validTarget event then (.invalidTarget, s)
  else
    match s.noteEventId event with
    | none => (.noopDuplicate, s)
    | some s => s.applyUnseen now event

/-- Whether the lookup of a target finds an entry. -/
def answers (s : Store) (now : Nat) (key : BlocklistTargetKey) : Bool :=
  match key.targetKind with
  | .ip =>
      (IpAddr.parse key.identifier).any fun ip => (s.isBlocked now ip key.siteScope).1.isSome
  | .meshId => (s.isMeshIdBlocked now key.identifier key.siteScope).1.isSome

/-- The operation that was last applied to a target. -/
def lastOperation (s : Store) (key : BlocklistTargetKey) : Option BlocklistOperation :=
  (s.targetState.get key).map (·.operation)

/-! ## Section 5: What an operation leaves -/

@[simp] theorem table_setTable_self (s : Store) (kind : BlockTargetKind) (table : Shards) :
    (s.setTable kind table).table kind = table := by
  cases kind <;> rfl

theorem table_setTable_of_ne (s : Store) {kind kind' : BlockTargetKind} (hne : kind' ≠ kind)
    (table : Shards) : (s.setTable kind table).table kind' = s.table kind' := by
  cases kind <;> cases kind' <;> first | rfl | exact absurd rfl hne

@[simp] theorem targetState_setTable (s : Store) (kind : BlockTargetKind) (table : Shards) :
    (s.setTable kind table).targetState = s.targetState := by
  cases kind <;> rfl

@[simp] theorem seenEvents_setTable (s : Store) (kind : BlockTargetKind) (table : Shards) :
    (s.setTable kind table).seenEvents = s.seenEvents := by
  cases kind <;> rfl

@[simp] theorem config_setTable (s : Store) (kind : BlockTargetKind) (table : Shards) :
    (s.setTable kind table).config = s.config := by
  cases kind <;> rfl

@[simp] theorem enabled_setTable (s : Store) (kind : BlockTargetKind) (table : Shards) :
    (s.setTable kind table).enabled = s.enabled := by
  cases kind <;> rfl

@[simp] theorem table_recordTargetState (s : Store) (key : BlocklistTargetKey)
    (state : LastAppliedBlocklistEvent) (kind : BlockTargetKind) :
    (s.recordTargetState key state).table kind = s.table kind := by
  cases kind <;> rfl

@[simp] theorem table_recordEvent (s : Store) (event : BlocklistEvent) (kind : BlockTargetKind) :
    (s.recordEvent event).table kind = s.table kind := by
  cases kind <;> rfl

/-- A store in which one table and the recorded states were replaced. -/
structure Changed (s : Store) (kind : BlockTargetKind) (table : Shards)
    (targetState : FifoCache BlocklistTargetKey LastAppliedBlocklistEvent targetStateMax)
    (s' : Store) : Prop where
  table : s'.table kind = table
  others : ∀ kind', kind' ≠ kind → s'.table kind' = s.table kind'
  targetState : s'.targetState = targetState
  seenEvents : s'.seenEvents = s.seenEvents
  config : s'.config = s.config
  enabled : s'.enabled = s.enabled

/-- The recorded states behind a direct operation. -/
def directStates (s : Store) (key : BlocklistTargetKey) (record : LastAppliedBlocklistEvent) :
    FifoCache BlocklistTargetKey LastAppliedBlocklistEvent targetStateMax :=
  if s.config.targetStatePersist then s.targetState.insert key record else s.targetState

theorem keys_directStates_subset {s : Store} {K : List BlocklistTargetKey}
    (hK : s.targetState.keys ⊆ K) {key : BlocklistTargetKey} (hkey : key ∈ K)
    (record : LastAppliedBlocklistEvent) : (s.directStates key record).keys ⊆ K := by
  unfold directStates
  split
  · exact FifoCache.keys_insert_subset_of hK hkey record
  · exact hK

theorem changed_setTable (s : Store) (kind : BlockTargetKind) (table : Shards) :
    Changed s kind table s.targetState (s.setTable kind table) where
  table := table_setTable_self s kind table
  others := fun _ hne => table_setTable_of_ne s hne table
  targetState := targetState_setTable s kind table
  seenEvents := seenEvents_setTable s kind table
  config := config_setTable s kind table
  enabled := enabled_setTable s kind table

theorem changed_recordTargetState (s : Store) (kind : BlockTargetKind) (table : Shards)
    (key : BlocklistTargetKey) (state : LastAppliedBlocklistEvent) :
    Changed s kind table (s.targetState.insert key state)
      ((s.setTable kind table).recordTargetState key state) where
  table := by rw [table_recordTargetState, table_setTable_self]
  others := fun kind' hne => by rw [table_recordTargetState, table_setTable_of_ne s hne]
  targetState := by
    show (s.setTable kind table).targetState.insert _ _ = _
    rw [targetState_setTable]
  seenEvents := seenEvents_setTable s kind table
  config := config_setTable s kind table
  enabled := enabled_setTable s kind table

theorem changed_record (s : Store) (kind : BlockTargetKind) (table : Shards)
    (siteScope identifier : Str) (operation : BlocklistOperation) (timestamp : Nat)
    (sourceNode : Option Str) (provenance : BlockProvenance) :
    Changed s kind table
      (s.directStates ⟨kind, siteScope, identifier⟩
        (directRecord operation timestamp sourceNode provenance))
      ((s.setTable kind table).recordTargetStateFromDirectOp kind siteScope identifier operation
        timestamp sourceNode provenance) := by
  unfold recordTargetStateFromDirectOp directStates
  rw [config_setTable]
  split
  · exact changed_recordTargetState s kind table _ _
  · exact changed_setTable s kind table

theorem blockTarget_cases {kind : BlockTargetKind} {s : Store} (henabled : s.enabled = true)
    (now : Nat) (identifier reason : Str) (ban : Nat) (siteScope : Str)
    (provenance : BlockProvenance) :
    (∃ table,
      (s.table kind).store s.config.maxEntries (entryKey kind siteScope identifier)
        (.new identifier reason ban siteScope now provenance) = some table ∧
      (blockTarget kind s now identifier reason ban siteScope provenance).1 = true ∧
      Changed s kind table
        (s.directStates ⟨kind, siteScope, identifier⟩ (directRecord .block now none provenance))
        (blockTarget kind s now identifier reason ban siteScope provenance).2) ∨
    ((s.table kind).store s.config.maxEntries (entryKey kind siteScope identifier)
        (.new identifier reason ban siteScope now provenance) = none ∧
      blockTarget kind s now identifier reason ban siteScope provenance = (false, s)) := by
  unfold blockTarget
  rw [if_pos henabled]
  cases hstore : (s.table kind).store s.config.maxEntries (entryKey kind siteScope identifier)
      (.new identifier reason ban siteScope now provenance) with
  | none => exact Or.inr ⟨rfl, rfl⟩
  | some table => exact Or.inl ⟨table, rfl, rfl, changed_record ..⟩

theorem unblockTarget_changed {kind : BlockTargetKind} {s : Store} (henabled : s.enabled = true)
    (now : Nat) (identifier siteScope : Str) :
    Changed s kind (removeScoped kind (s.table kind) siteScope identifier).2
      (s.directStates ⟨kind, siteScope, identifier⟩ (directRecord .unblock now none .default))
      (unblockTarget kind s now identifier siteScope).2 := by
  unfold unblockTarget
  rw [if_pos henabled]
  exact changed_record ..

theorem removeScoped_snd (kind : BlockTargetKind) (table : Shards) (siteScope identifier : Str) :
    (removeScoped kind table siteScope identifier).2 =
      if siteScope ≠ globalScope then
        ((table.remove (entryKey kind siteScope identifier)).2.remove
          (entryKey kind globalScope identifier)).2
      else (table.remove (entryKey kind siteScope identifier)).2 := by
  unfold removeScoped
  by_cases hscope : siteScope ≠ globalScope
  · simp only [if_pos hscope]
  · simp only [if_neg hscope]

theorem lookup_removeScoped (kind : BlockTargetKind) (table : Shards)
    (siteScope identifier k : Str) :
    (removeScoped kind table siteScope identifier).2.entries.lookup k =
      if k = entryKey kind siteScope identifier ∨ k = entryKey kind globalScope identifier then none
      else table.entries.lookup k := by
  rw [removeScoped_snd]
  by_cases hscope : siteScope = globalScope
  · subst hscope
    rw [if_neg (not_not_intro rfl), Shards.lookup_remove]
    simp only [or_self]
  · rw [if_pos hscope, Shards.lookup_remove, Shards.lookup_remove]
    grind

theorem answers_eq {key : BlocklistTargetKey} {identifier : Str}
    (hid : entryIdentifier key.targetKind key.identifier = some identifier)
    (s : Store) (now : Nat) :
    s.answers now key =
      (isTargetBlocked key.targetKind s now identifier key.siteScope).1.isSome := by
  unfold answers
  cases hkind : key.targetKind with
  | ip =>
    rw [hkind] at hid
    obtain ⟨ip, hparse, rfl⟩ := Option.map_eq_some_iff.mp hid
    rw [hparse]
    rfl
  | meshId =>
    rw [hkind] at hid
    obtain rfl := Option.some.inj hid
    rfl

/-- The lookup reads only the table of the kind. -/
theorem isTargetBlocked_congr {kind : BlockTargetKind} {s s' : Store}
    (htable : s'.table kind = s.table kind) (henabled : s'.enabled = s.enabled) (now : Nat)
    (identifier siteScope : Str) :
    (isTargetBlocked kind s' now identifier siteScope).1 =
      (isTargetBlocked kind s now identifier siteScope).1 := by
  unfold isTargetBlocked
  rw [htable, henabled]
  split
  · rcases (s.table kind).lookupLive kind now (entryKey kind siteScope identifier) with
      ⟨_ | entry, table⟩
    · simp only
      split <;> rfl
    · rfl
  · rfl

theorem answers_congr {s s' : Store} (htables : ∀ kind, s'.table kind = s.table kind)
    (henabled : s'.enabled = s.enabled) (now : Nat) (key : BlocklistTargetKey) :
    s'.answers now key = s.answers now key := by
  unfold answers isBlocked isMeshIdBlocked
  simp only [isTargetBlocked_congr (htables _) henabled]

/-! ### Events -/

/-- The table of an event's kind once the event is applied, if it can be. -/
def eventTable (s : Store) (now : Nat) (event : BlocklistEvent) (identifier : Str) :
    Option Shards :=
  match event.operation with
  | .block =>
      (s.table event.targetKind).store s.config.maxEntries
        (entryKey event.targetKind event.siteScope identifier)
        (.new identifier (event.reason.getD "mesh_event".toList) (event.ttlSecs.getD 3600)
          event.siteScope now event.provenance)
  | .unblock =>
      some (removeScoped event.targetKind (s.table event.targetKind) event.siteScope identifier).2

/-- What the direct operation behind an event records. -/
def eventDirectRecord (now : Nat) (event : BlocklistEvent) : LastAppliedBlocklistEvent :=
  match event.operation with
  | .block => directRecord .block now none event.provenance
  | .unblock => directRecord .unblock now none .default

theorem validTarget_iff (event : BlocklistEvent) :
    validTarget event = (entryIdentifier event.targetKind event.identifier).isSome := by
  unfold validTarget entryIdentifier
  cases event.operation <;> cases event.targetKind <;> simp

/-- Whichever kind the target has, a block event ends in the direct operation on
    the text of its entry. -/
theorem mutateForEvent_block (s : Store) (now : Nat) {event : BlocklistEvent}
    (hop : event.operation = .block) {identifier : Str}
    (hid : entryIdentifier event.targetKind event.identifier = some identifier) :
    s.mutateForEvent now event =
      let blocked := blockTarget event.targetKind s now identifier
        (event.reason.getD "mesh_event".toList) (event.ttlSecs.getD 3600) event.siteScope
        event.provenance
      (if blocked.1 then .applied else .storeDisabled, blocked.2) := by
  unfold mutateForEvent
  cases hkind : event.targetKind with
  | ip =>
    rw [hkind] at hid
    obtain ⟨ip, hparse, rfl⟩ := Option.map_eq_some_iff.mp hid
    simp only [hop, hparse]
    rfl
  | meshId =>
    rw [hkind] at hid
    obtain rfl := Option.some.inj hid
    simp only [hop]
    rfl

theorem mutateForEvent_unblock (s : Store) (now : Nat) {event : BlocklistEvent}
    (hop : event.operation = .unblock) {identifier : Str}
    (hid : entryIdentifier event.targetKind event.identifier = some identifier) :
    s.mutateForEvent now event =
      (.applied, (unblockTarget event.targetKind s now identifier event.siteScope).2) := by
  unfold mutateForEvent
  cases hkind : event.targetKind with
  | ip =>
    rw [hkind] at hid
    obtain ⟨ip, hparse, rfl⟩ := Option.map_eq_some_iff.mp hid
    simp only [hop, hparse]
    rfl
  | meshId =>
    rw [hkind] at hid
    obtain rfl := Option.some.inj hid
    simp only [hop]
    rfl

theorem mutateForEvent_cases {s : Store} (henabled : s.enabled = true) (now : Nat)
    {event : BlocklistEvent} {identifier : Str}
    (hid : entryIdentifier event.targetKind event.identifier = some identifier) :
    (∃ table, s.eventTable now event identifier = some table ∧
      (s.mutateForEvent now event).1 = .applied ∧
      Changed s event.targetKind table
        (s.directStates ⟨event.targetKind, event.siteScope, identifier⟩
          (eventDirectRecord now event))
        (s.mutateForEvent now event).2) ∨
    (s.eventTable now event identifier = none ∧
      s.mutateForEvent now event = (.storeDisabled, s)) := by
  unfold eventTable eventDirectRecord
  cases hop : event.operation with
  | block =>
    rw [mutateForEvent_block s now hop hid]
    rcases blockTarget_cases henabled now identifier (event.reason.getD "mesh_event".toList)
        (event.ttlSecs.getD 3600) event.siteScope event.provenance with
      ⟨table, hstore, hblocked, hchanged⟩ | ⟨hstore, hrefused⟩
    · exact Or.inl ⟨table, hstore, if_pos hblocked, hchanged⟩
    · refine Or.inr ⟨hstore, ?_⟩
      rw [hrefused]
      rfl
  | unblock =>
    rw [mutateForEvent_unblock s now hop hid]
    exact Or.inl ⟨_, rfl, rfl, unblockTarget_changed henabled now identifier event.siteScope⟩

/-- The store with the event's id noted. -/
def noted (s : Store) (event : BlocklistEvent) : Store :=
  match event.eventId with
  | some id => { s with seenEvents := s.seenEvents.insert id () }
  | none => s

/-- The event was applied. -/
structure Applied (s : Store) (now : Nat) (event : BlocklistEvent) (identifier : Str)
    (s' : Store) : Prop where
  enabled : s.enabled = true
  entryIdentifier_eq : entryIdentifier event.targetKind event.identifier = some identifier
  fresh : ∀ id, event.eventId = some id → s.seenEvents.contains id = false
  newer : ∀ last, s.targetState.get event.targetKey = some last →
    event.lastApplied.isNewerThan last = true
  table : s.eventTable now event identifier = some (s'.table event.targetKind)
  others : ∀ kind, kind ≠ event.targetKind → s'.table kind = s.table kind
  targetState : s'.targetState =
    (s.directStates ⟨event.targetKind, event.siteScope, identifier⟩
      (eventDirectRecord now event)).insert event.targetKey event.lastApplied
  seenEvents : s'.seenEvents = (s.noted event).seenEvents
  config : s'.config = s.config
  enabled_eq : s'.enabled = s.enabled

theorem Applied.mem_recordKeys {s : Store} {now : Nat} {event : BlocklistEvent} {identifier : Str}
    {s' : Store} (h : Applied s now event identifier s') :
    (⟨event.targetKind, event.siteScope, identifier⟩ : BlocklistTargetKey) ∈ event.recordKeys := by
  rw [BlocklistEvent.recordKeys, h.entryIdentifier_eq]
  exact List.mem_cons_of_mem _ (List.mem_singleton_self _)

/-- Why an event is not applied: the store is disabled, the target is no
    address, the id was seen, the event is stale, or there is no room. -/
inductive Refuses (s : Store) (now : Nat) (event : BlocklistEvent) : Prop where
  | disabled (h : s.enabled = false)
  | invalid (h : entryIdentifier event.targetKind event.identifier = none)
  | duplicate {id : Str} (hid : event.eventId = some id) (h : s.seenEvents.contains id = true)
  | stale {last : LastAppliedBlocklistEvent}
      (hlast : s.targetState.get event.targetKey = some last)
      (h : event.lastApplied.isNewerThan last = false)
  | full {identifier : Str}
      (hid : entryIdentifier event.targetKind event.identifier = some identifier)
      (h : s.eventTable now event identifier = none)

/-- An event was refused: the store is as before, up to the ids it has seen. -/
structure Refused (s : Store) (now : Nat) (event : BlocklistEvent) (s' : Store) : Prop where
  why : s.Refuses now event
  unchanged : s' = s ∨ s' = s.noted event

@[simp] theorem table_noted (s : Store) (event : BlocklistEvent) (kind : BlockTargetKind) :
    (s.noted event).table kind = s.table kind := by
  unfold noted
  split <;> cases kind <;> rfl

@[simp] theorem targetState_noted (s : Store) (event : BlocklistEvent) :
    (s.noted event).targetState = s.targetState := by
  unfold noted
  split <;> rfl

@[simp] theorem config_noted (s : Store) (event : BlocklistEvent) :
    (s.noted event).config = s.config := by
  unfold noted
  split <;> rfl

@[simp] theorem enabled_noted (s : Store) (event : BlocklistEvent) :
    (s.noted event).enabled = s.enabled := by
  unfold noted
  split <;> rfl

@[simp] theorem eventTable_noted (s : Store) (event : BlocklistEvent) (now : Nat)
    (event' : BlocklistEvent) (identifier : Str) :
    (s.noted event).eventTable now event' identifier = s.eventTable now event' identifier := by
  unfold eventTable
  simp

@[simp] theorem directStates_noted (s : Store) (event : BlocklistEvent) (key : BlocklistTargetKey)
    (record : LastAppliedBlocklistEvent) :
    (s.noted event).directStates key record = s.directStates key record := by
  unfold directStates
  simp

theorem Refused.targetState {s s' : Store} {now : Nat} {event : BlocklistEvent}
    (h : Refused s now event s') : s'.targetState = s.targetState := by
  rcases h.unchanged with rfl | rfl
  · rfl
  · exact targetState_noted s event

theorem Refused.answers {s s' : Store} {now : Nat} {event : BlocklistEvent}
    (h : Refused s now event s') (at' : Nat) (key : BlocklistTargetKey) :
    s'.answers at' key = s.answers at' key := by
  rcases h.unchanged with rfl | rfl
  · rfl
  · exact answers_congr (fun kind => table_noted s event kind) (enabled_noted s event) at' key

theorem noteEventId_cases (s : Store) (event : BlocklistEvent) :
    (∃ id, event.eventId = some id ∧ s.seenEvents.contains id = true ∧
      s.noteEventId event = none) ∨
    ((∀ id, event.eventId = some id → s.seenEvents.contains id = false) ∧
      s.noteEventId event = some (s.noted event)) := by
  unfold noteEventId noted
  cases hid : event.eventId with
  | none => exact Or.inr ⟨fun id h => (by cases h), rfl⟩
  | some id =>
    by_cases hseen : s.seenEvents.contains id = true
    · exact Or.inl ⟨id, rfl, hseen, if_pos hseen⟩
    · refine Or.inr ⟨?_, if_neg hseen⟩
      intro id' h
      obtain rfl := Option.some.inj h
      exact Bool.eq_false_iff.mpr hseen

theorem isStale_cases (s : Store) (event : BlocklistEvent) :
    (∃ last, s.targetState.get event.targetKey = some last ∧
      event.lastApplied.isNewerThan last = false ∧ s.isStale event = true) ∨
    ((∀ last, s.targetState.get event.targetKey = some last →
      event.lastApplied.isNewerThan last = true) ∧ s.isStale event = false) := by
  unfold isStale
  cases hget : s.targetState.get event.targetKey with
  | none => exact Or.inr ⟨fun last h => (by cases h), rfl⟩
  | some last =>
    cases hnewer : event.lastApplied.isNewerThan last with
    | false => exact Or.inl ⟨last, rfl, hnewer, by simp [hnewer]⟩
    | true =>
      refine Or.inr ⟨?_, by simp [hnewer]⟩
      intro last' h
      obtain rfl := Option.some.inj h
      exact hnewer

/-- An event whose id was noted is applied, or leaves the store as it is. -/
theorem applyUnseen_cases {s : Store} (henabled : s.enabled = true) (now : Nat)
    {event : BlocklistEvent} {identifier : Str}
    (hid : entryIdentifier event.targetKind event.identifier = some identifier)
    (hfresh : ∀ id, event.eventId = some id → s.seenEvents.contains id = false) :
    ((s.noted event).applyUnseen now event).1 = .applied ∧
      Applied s now event identifier ((s.noted event).applyUnseen now event).2 ∨
    ((s.noted event).applyUnseen now event).1 ≠ .applied ∧ s.Refuses now event ∧
      ((s.noted event).applyUnseen now event).2 = s.noted event := by
  unfold applyUnseen
  rcases isStale_cases (s.noted event) event with ⟨last, hlast, holder, hstale⟩ | ⟨hnewer, hstale⟩
  · rw [hstale]
    rw [targetState_noted] at hlast
    exact Or.inr ⟨by simp, .stale hlast holder, rfl⟩
  · rw [hstale]
    rw [targetState_noted] at hnewer
    have henabled' : (s.noted event).enabled = true := by rw [enabled_noted, henabled]
    rcases mutateForEvent_cases henabled' now hid with
      ⟨table, htable, happlied, hchanged⟩ | ⟨htable, hrefused⟩
    · rw [eventTable_noted] at htable
      rw [directStates_noted] at hchanged
      generalize (s.noted event).mutateForEvent now event = mutated at happlied hchanged
      obtain ⟨result, s'⟩ := mutated
      obtain rfl : result = .applied := happlied
      refine Or.inl ⟨rfl, ?_⟩
      show Applied s now event identifier (s'.recordEvent event)
      exact
        { enabled := henabled
          entryIdentifier_eq := hid
          fresh := hfresh
          newer := hnewer
          table := by
            rw [htable, table_recordEvent]
            exact congrArg some hchanged.table.symm
          others := fun kind hne => by
            rw [table_recordEvent]
            exact (hchanged.others kind hne).trans (table_noted s event kind)
          targetState := congrArg (·.insert event.targetKey event.lastApplied) hchanged.targetState
          seenEvents := hchanged.seenEvents
          config := hchanged.config.trans (config_noted s event)
          enabled_eq := hchanged.enabled.trans (enabled_noted s event) }
    · rw [eventTable_noted] at htable
      rw [hrefused]
      exact Or.inr ⟨by simp, .full hid htable, rfl⟩

/-- **An event is applied or refused.** -/
theorem applyBlocklistEvent_cases (s : Store) (now : Nat) (event : BlocklistEvent) :
    (s.applyBlocklistEvent now event).1 = .applied ∧
      (∃ identifier, Applied s now event identifier (s.applyBlocklistEvent now event).2) ∨
    (s.applyBlocklistEvent now event).1 ≠ .applied ∧
      Refused s now event (s.applyBlocklistEvent now event).2 := by
  unfold applyBlocklistEvent
  cases henabled : s.enabled with
  | false => exact Or.inr ⟨by simp, .disabled henabled, Or.inl rfl⟩
  | true =>
    rw [validTarget_iff]
    cases hid : entryIdentifier event.targetKind event.identifier with
    | none => exact Or.inr ⟨by simp, .invalid hid, Or.inl rfl⟩
    | some identifier =>
      rcases noteEventId_cases s event with ⟨id, heq, hseen, hnote⟩ | ⟨hfresh, hnote⟩
      · rw [hnote]
        exact Or.inr ⟨by simp, .duplicate heq hseen, Or.inl rfl⟩
      · rw [hnote]
        rcases applyUnseen_cases henabled now hid hfresh with ⟨happlied, h⟩ | ⟨hnot, hwhy, heq⟩
        · exact Or.inl ⟨happlied, identifier, h⟩
        · exact Or.inr ⟨hnot, hwhy, Or.inr heq⟩

end Store

end Synvoid.BlockStore
