import Synvoid.BlockStore.Store
import Mathlib.Data.Char
import Mathlib.Data.List.Lex
import Mathlib.Data.List.Sort
import Mathlib.Data.Prod.Lex

/-! # Snapshots of a block store

    A peer that has missed too many events asks for the other's blocks and
    recorded states instead. They come in pages: the items are sorted, blocks
    before recorded states, and a page token is the number of items that came
    before. Each page is merged into the store of the peer that asked.

    A block is merged with the time at which it was made, so it can be older
    than what the store has recorded. It is held back only by a recorded
    unblocking that it is not newer than.
-/

namespace Synvoid.BlockStore

open Synvoid.Framework

/-! ## Section 1: Records -/

structure BlockRecord where
  targetKind : BlockTargetKind
  identifier : Str
  reason : Str
  blockedAt : Nat
  banExpireSeconds : Nat
  siteScope : Str
  accessCount : Nat
  lastAccess : Nat
  provenance : BlockProvenance
  deriving DecidableEq

structure BlocklistTargetStateRecord where
  targetKind : BlockTargetKind
  siteScope : Str
  identifier : Str
  lastOperation : BlocklistOperation
  timestamp : Nat
  version : Option Nat
  eventId : Option Str
  sourceNode : Option Str
  provenance : BlockProvenance
  recordedAt : Nat
  expiresAt : Option Nat
  sourceSequence : Option Nat
  logicalTime : Option Nat
  deriving DecidableEq

/-- `BlocklistTargetStateRecord::is_expired`. -/
def BlocklistTargetStateRecord.isExpired (record : BlocklistTargetStateRecord) (now : Nat) : Bool :=
  record.expiresAt.any (now > ·)

def BlocklistTargetStateRecord.targetKey (record : BlocklistTargetStateRecord) :
    BlocklistTargetKey where
  targetKind := record.targetKind
  siteScope := record.siteScope
  identifier := record.identifier

/-- `this_event` of a recorded state. -/
def BlocklistTargetStateRecord.lastApplied (record : BlocklistTargetStateRecord) :
    LastAppliedBlocklistEvent where
  timestamp := record.timestamp
  version := record.version
  eventId := record.eventId
  operation := record.lastOperation
  sourceNode := record.sourceNode
  provenance := record.provenance
  sourceSequence := record.sourceSequence
  logicalTime := record.logicalTime

/-- Whether the time of a block is over; both loops add it up with a check. -/
def BlockRecord.isExpired (record : BlockRecord) (now : Nat) : Bool :=
  record.banExpireSeconds > 0 && now > min (record.blockedAt + record.banExpireSeconds) u64Max

/-- The target of a block. The loop over the records tells the kind. -/
def BlockRecord.targetKey (kind : BlockTargetKind) (record : BlockRecord) : BlocklistTargetKey where
  targetKind := kind
  siteScope := record.siteScope
  identifier := record.identifier

/-- `candidate`: what is recorded of a block. -/
def BlockRecord.candidate (record : BlockRecord) : LastAppliedBlocklistEvent :=
  Store.directRecord .block record.blockedAt none record.provenance

/-- The entry of a block keeps the identifier as the record spells it. -/
def BlockRecord.entry (record : BlockRecord) : BlockEntry :=
  .new record.identifier record.reason record.banExpireSeconds record.siteScope record.blockedAt
    record.provenance

structure BlocklistSnapshotOptions where
  includeIpBlocks : Bool
  includeMeshIdBlocks : Bool
  includeTargetState : Bool
  siteScope : Option Str
  maxItems : Nat

structure BlocklistSnapshotCursor where
  pageToken : Option Str

structure BlocklistSnapshotChunk where
  ipBlocks : List BlockRecord
  meshBlocks : List BlockRecord
  targetStateRecords : List BlocklistTargetStateRecord
  nextPageToken : Option Str
  hasMore : Bool
  snapshotComplete : Bool
  truncatedReason : Option Str
  deriving DecidableEq

structure BlocklistSnapshotApplyResult where
  ipBlocksApplied : Nat
  ipBlocksUpdated : Nat
  meshBlocksApplied : Nat
  meshBlocksUpdated : Nat
  targetStateRecordsApplied : Nat
  staleRecordsIgnored : Nat
  invalidRecordsIgnored : Nat
  expiredRecordsIgnored : Nat
  deriving DecidableEq

def BlocklistSnapshotApplyResult.default : BlocklistSnapshotApplyResult :=
  ⟨0, 0, 0, 0, 0, 0, 0, 0⟩

inductive SnapshotItem where
  | ip (record : BlockRecord)
  | mesh (record : BlockRecord)
  | targetState (record : BlocklistTargetStateRecord)
  deriving DecidableEq

namespace SnapshotItem

def sortKind : SnapshotItem → Nat
  | ip _ => 0
  | mesh _ => 1
  | targetState _ => 2

def siteScope : SnapshotItem → Str
  | ip record | mesh record => record.siteScope
  | targetState record => record.siteScope

def identifier : SnapshotItem → Str
  | ip record | mesh record => record.identifier
  | targetState record => record.identifier

/-- What the items of a snapshot are sorted by. -/
def sortKey (item : SnapshotItem) : Nat ×ₗ Str ×ₗ Str :=
  toLex (item.sortKind, toLex (item.siteScope, item.identifier))

def ipBlock? : SnapshotItem → Option BlockRecord
  | ip record => some record
  | _ => none

def meshBlock? : SnapshotItem → Option BlockRecord
  | mesh record => some record
  | _ => none

def targetState? : SnapshotItem → Option BlocklistTargetStateRecord
  | targetState record => some record
  | _ => none

end SnapshotItem

/-! ## Section 2: Export -/

/-- The options ask for the scope. -/
def BlocklistSnapshotOptions.asksFor (options : BlocklistSnapshotOptions) (siteScope : Str) :
    Bool :=
  options.siteScope.all (siteScope == ·)

def BlockEntry.toRecord (kind : BlockTargetKind) (entry : BlockEntry) : BlockRecord where
  targetKind := kind
  identifier := entry.identifier
  reason := entry.reason
  blockedAt := entry.blockedAt
  banExpireSeconds := entry.banExpireSeconds
  siteScope := entry.siteScope
  accessCount := entry.accessCount
  lastAccess := entry.lastAccess
  provenance := entry.provenance

/-- The record of what was last applied to a target, to be kept for `ttl`
    seconds. -/
def targetStateRecord (now ttl : Nat) (target : BlocklistTargetKey × LastAppliedBlocklistEvent) :
    BlocklistTargetStateRecord where
  targetKind := target.1.targetKind
  siteScope := target.1.siteScope
  identifier := target.1.identifier
  lastOperation := target.2.operation
  timestamp := target.2.timestamp
  version := target.2.version
  eventId := target.2.eventId
  sourceNode := target.2.sourceNode
  provenance := target.2.provenance
  recordedAt := now
  expiresAt := some (min (now + ttl) u64Max)
  sourceSequence := target.2.sourceSequence
  logicalTime := target.2.logicalTime

namespace Store

/-- `get_all_entries` and `get_all_mesh_entries`. -/
def getAllEntries (s : Store) (kind : BlockTargetKind) : List BlockEntry :=
  (s.table kind).entries.entries.map Sigma.snd

/-- The blocks of a kind that are exported. -/
def exportedBlocks (s : Store) (kind : BlockTargetKind) (now : Nat)
    (options : BlocklistSnapshotOptions) : List BlockRecord :=
  ((s.getAllEntries kind).filter fun entry =>
    !entry.isExpired kind now && options.asksFor entry.siteScope).map (BlockEntry.toRecord kind)

/-- The recorded states that are exported. -/
def exportedStates (s : Store) (now : Nat) (options : BlocklistSnapshotOptions) :
    List BlocklistTargetStateRecord :=
  ((s.targetState.entries.filter fun target => options.asksFor target.1.siteScope).map
    (targetStateRecord now s.config.targetStateTtlSecs)).filter fun record => !record.isExpired now

/-- `all_items` of the export, before they are sorted. -/
def collectedItems (s : Store) (now : Nat) (options : BlocklistSnapshotOptions) :
    List SnapshotItem :=
  (if options.includeIpBlocks then (s.exportedBlocks .ip now options).map .ip else []) ++
  (if options.includeMeshIdBlocks then (s.exportedBlocks .meshId now options).map .mesh else []) ++
  (if options.includeTargetState then (s.exportedStates now options).map .targetState else [])

def sortedItems (s : Store) (now : Nat) (options : BlocklistSnapshotOptions) : List SnapshotItem :=
  (s.collectedItems now options).insertionSort fun a b => a.sortKey ≤ b.sortKey

end Store

def BlocklistSnapshotOptions.pageSize (options : BlocklistSnapshotOptions) : Nat :=
  if options.maxItems = 0 then 500 else options.maxItems

/-- The number of items before the page. A token that is no number stands for the
    first page. -/
def BlocklistSnapshotCursor.offset (cursor : BlocklistSnapshotCursor) : Nat :=
  (cursor.pageToken.bind (parseUnsigned u64Max)).getD 0

/-- `export_blocklist_snapshot`. -/
def Store.exportBlocklistSnapshot (s : Store) (now : Nat) (options : BlocklistSnapshotOptions)
    (cursor : BlocklistSnapshotCursor) : BlocklistSnapshotChunk :=
  let allItems := s.sortedItems now options
  let page := (allItems.drop cursor.offset).take options.pageSize
  let hasMore : Bool := cursor.offset + page.length < allItems.length
  { ipBlocks := page.filterMap SnapshotItem.ipBlock?
    meshBlocks := page.filterMap SnapshotItem.meshBlock?
    targetStateRecords := page.filterMap SnapshotItem.targetState?
    nextPageToken := if hasMore then some (decimal (cursor.offset + page.length)) else none
    hasMore := hasMore
    snapshotComplete := !hasMore
    truncatedReason := none }

/-! ## Section 3: Merge -/

namespace Store

/-- Puts a block into the table of its kind under the given text, and records it
    for its target. -/
def applySnapshotBlock (kind : BlockTargetKind) (s : Store) (record : BlockRecord)
    (identifier : Str) : Bool × Store :=
  if s.enabled then
    match (s.table kind).store s.config.maxEntries (entryKey kind record.siteScope identifier)
        record.entry with
    | none => (false, s)
    | some table =>
        (true, (s.setTable kind table).recordTargetState (record.targetKey kind) record.candidate)
  else (false, s)

def applySnapshotIpBlock (s : Store) (record : BlockRecord) : Bool × Store :=
  match IpAddr.parse record.identifier with
  | none => (false, s)
  | some ip => applySnapshotBlock .ip s record ip.display

def applySnapshotMeshBlock (s : Store) (record : BlockRecord) : Bool × Store :=
  applySnapshotBlock .meshId s record record.identifier

/-- The target was unblocked last and the block is not newer. -/
def holdsBack (last : Option LastAppliedBlocklistEvent) (record : BlockRecord) : Bool :=
  last.any fun last => last.operation == .unblock && !record.candidate.isNewerThan last

/-- The text under which the entry of a block goes; `none` if the identifier is
    not valid. -/
def snapshotIdentifier : BlockTargetKind → Str → Option Str
  | .ip, identifier => (IpAddr.parse identifier).map IpAddr.display
  | .meshId, identifier => if identifier.isEmpty then none else some identifier

/-- The body of the loops over the blocks of a snapshot. -/
def mergeBlock (kind : BlockTargetKind) (apply : Store → BlockRecord → Bool × Store)
    (count : Bool → BlocklistSnapshotApplyResult → BlocklistSnapshotApplyResult) (now : Nat)
    (acc : BlocklistSnapshotApplyResult × Store) (record : BlockRecord) :
    BlocklistSnapshotApplyResult × Store :=
  let (result, s) := acc
  match snapshotIdentifier kind record.identifier with
  | none => ({ result with invalidRecordsIgnored := result.invalidRecordsIgnored + 1 }, s)
  | some identifier =>
      if record.isExpired now then
        ({ result with expiredRecordsIgnored := result.expiredRecordsIgnored + 1 }, s)
      else if holdsBack (s.targetState.get (record.targetKey kind)) record then
        ({ result with staleRecordsIgnored := result.staleRecordsIgnored + 1 }, s)
      else
        let existed :=
          ((s.table kind).entries.lookup (entryKey kind record.siteScope identifier)).isSome
        let (applied, s) := apply s record
        (if applied then count existed result else result, s)

def mergeIpBlock : Nat → BlocklistSnapshotApplyResult × Store → BlockRecord →
    BlocklistSnapshotApplyResult × Store :=
  mergeBlock .ip applySnapshotIpBlock fun existed result =>
    if existed then { result with ipBlocksUpdated := result.ipBlocksUpdated + 1 }
    else { result with ipBlocksApplied := result.ipBlocksApplied + 1 }

def mergeMeshBlock : Nat → BlocklistSnapshotApplyResult × Store → BlockRecord →
    BlocklistSnapshotApplyResult × Store :=
  mergeBlock .meshId applySnapshotMeshBlock fun existed result =>
    if existed then { result with meshBlocksUpdated := result.meshBlocksUpdated + 1 }
    else { result with meshBlocksApplied := result.meshBlocksApplied + 1 }

/-- The body of the loop over the recorded states. -/
def mergeTargetState (now : Nat) (acc : BlocklistSnapshotApplyResult × Store)
    (record : BlocklistTargetStateRecord) : BlocklistSnapshotApplyResult × Store :=
  let (result, s) := acc
  if record.isExpired now then
    ({ result with expiredRecordsIgnored := result.expiredRecordsIgnored + 1 }, s)
  else if (s.targetState.get record.targetKey).any fun last =>
      !record.lastApplied.isNewerThan last then
    ({ result with staleRecordsIgnored := result.staleRecordsIgnored + 1 }, s)
  else
    ({ result with targetStateRecordsApplied := result.targetStateRecordsApplied + 1 },
      s.recordTargetState record.targetKey record.lastApplied)

/-- `apply_blocklist_snapshot`. -/
def applyBlocklistSnapshot (s : Store) (now : Nat) (snapshot : BlocklistSnapshotChunk) :
    BlocklistSnapshotApplyResult × Store :=
  if s.enabled then
    let acc := snapshot.ipBlocks.foldl (mergeIpBlock now) (.default, s)
    let acc := snapshot.meshBlocks.foldl (mergeMeshBlock now) acc
    snapshot.targetStateRecords.foldl (mergeTargetState now) acc
  else (.default, s)

end Store

/-! ## Section 4: One record after the other -/

/-- The records of a chunk in the order in which they are merged. -/
def BlocklistSnapshotChunk.items (chunk : BlocklistSnapshotChunk) : List SnapshotItem :=
  chunk.ipBlocks.map .ip ++ chunk.meshBlocks.map .mesh ++
    chunk.targetStateRecords.map .targetState

/-- A block of either kind. -/
def SnapshotItem.block : BlockTargetKind → BlockRecord → SnapshotItem
  | .ip => .ip
  | .meshId => .mesh

theorem SnapshotItem.block_or_state (item : SnapshotItem) :
    (∃ kind record, item = .block kind record) ∨ ∃ record, item = .targetState record := by
  cases item with
  | ip record => exact Or.inl ⟨.ip, record, rfl⟩
  | mesh record => exact Or.inl ⟨.meshId, record, rfl⟩
  | targetState record => exact Or.inr ⟨record, rfl⟩

namespace Store

/-- What the merge of one record makes of the store. -/
def mergeItem (now : Nat) (s : Store) : SnapshotItem → Store
  | .ip record => (mergeIpBlock now (.default, s) record).2
  | .mesh record => (mergeMeshBlock now (.default, s) record).2
  | .targetState record => (mergeTargetState now (.default, s) record).2

/-- The counters do not matter for the store. -/
theorem mergeBlock_snd (kind : BlockTargetKind) (apply : Store → BlockRecord → Bool × Store)
    (count : Bool → BlocklistSnapshotApplyResult → BlocklistSnapshotApplyResult) (now : Nat)
    (acc : BlocklistSnapshotApplyResult × Store) (record : BlockRecord) :
    (mergeBlock kind apply count now acc record).2 =
      (mergeBlock kind apply count now (.default, acc.2) record).2 := by
  obtain ⟨result, s⟩ := acc
  unfold mergeBlock
  cases snapshotIdentifier kind record.identifier with
  | none => rfl
  | some identifier =>
    simp only
    split
    · rfl
    · split <;> rfl

theorem mergeIpBlock_snd (now : Nat) (acc : BlocklistSnapshotApplyResult × Store)
    (record : BlockRecord) : (mergeIpBlock now acc record).2 = mergeItem now acc.2 (.ip record) :=
  mergeBlock_snd _ _ _ now acc record

theorem mergeMeshBlock_snd (now : Nat) (acc : BlocklistSnapshotApplyResult × Store)
    (record : BlockRecord) :
    (mergeMeshBlock now acc record).2 = mergeItem now acc.2 (.mesh record) :=
  mergeBlock_snd _ _ _ now acc record

theorem mergeTargetState_snd (now : Nat) (acc : BlocklistSnapshotApplyResult × Store)
    (record : BlocklistTargetStateRecord) :
    (mergeTargetState now acc record).2 = mergeItem now acc.2 (.targetState record) := by
  obtain ⟨result, s⟩ := acc
  unfold mergeItem mergeTargetState
  simp only
  split
  · rfl
  · split <;> rfl

/-- Loops whose bodies agree on the store agree on it at the end. -/
theorem snd_foldl {α : Type} {body : BlocklistSnapshotApplyResult × Store → α →
    BlocklistSnapshotApplyResult × Store} (merge : Store → α → Store)
    (hbody : ∀ acc x, (body acc x).2 = merge acc.2 x) (l : List α)
    (acc : BlocklistSnapshotApplyResult × Store) : (l.foldl body acc).2 = l.foldl merge acc.2 :=
  (List.foldl_hom Prod.snd fun acc x => (hbody acc x).symm).symm

/-- **A chunk is merged record by record**, in the order of its items. -/
theorem applyBlocklistSnapshot_snd {s : Store} (henabled : s.enabled = true) (now : Nat)
    (chunk : BlocklistSnapshotChunk) :
    (s.applyBlocklistSnapshot now chunk).2 = chunk.items.foldl (mergeItem now) s := by
  unfold applyBlocklistSnapshot BlocklistSnapshotChunk.items
  rw [if_pos henabled, List.foldl_append, List.foldl_append, List.foldl_map, List.foldl_map,
    List.foldl_map]
  rw [snd_foldl (fun s record => s.mergeItem now (.targetState record)) (mergeTargetState_snd now),
    snd_foldl (fun s record => s.mergeItem now (.mesh record)) (mergeMeshBlock_snd now),
    snd_foldl (fun s record => s.mergeItem now (.ip record)) (mergeIpBlock_snd now)]

/-- A block was merged: it was valid and its time not over, nothing held it back,
    and there was room. -/
structure BlockMerged (s : Store) (now : Nat) (kind : BlockTargetKind) (record : BlockRecord)
    (identifier : Str) (table : Shards) (s' : Store) : Prop where
  valid : snapshotIdentifier kind record.identifier = some identifier
  live : record.isExpired now = false
  notHeldBack : holdsBack (s.targetState.get (record.targetKey kind)) record = false
  store : (s.table kind).store s.config.maxEntries (entryKey kind record.siteScope identifier)
    record.entry = some table
  changed : Changed s kind table
    (s.targetState.insert (record.targetKey kind) record.candidate) s'

/-- Why a block is not merged. -/
inductive IgnoresBlock (s : Store) (now : Nat) (kind : BlockTargetKind) (record : BlockRecord) :
    Prop where
  | invalid (h : snapshotIdentifier kind record.identifier = none)
  | expired (h : record.isExpired now = true)
  | heldBack (h : holdsBack (s.targetState.get (record.targetKey kind)) record = true)
  | full {identifier : Str} (hid : snapshotIdentifier kind record.identifier = some identifier)
      (h : (s.table kind).store s.config.maxEntries (entryKey kind record.siteScope identifier)
        record.entry = none)

theorem applySnapshotBlock_cases {kind : BlockTargetKind} {s : Store} (henabled : s.enabled = true)
    (record : BlockRecord) (identifier : Str) :
    (∃ table, (s.table kind).store s.config.maxEntries
        (entryKey kind record.siteScope identifier) record.entry = some table ∧
      Changed s kind table (s.targetState.insert (record.targetKey kind) record.candidate)
        (applySnapshotBlock kind s record identifier).2) ∨
    ((s.table kind).store s.config.maxEntries (entryKey kind record.siteScope identifier)
        record.entry = none ∧
      (applySnapshotBlock kind s record identifier).2 = s) := by
  unfold applySnapshotBlock
  rw [if_pos henabled]
  cases hstore : (s.table kind).store s.config.maxEntries
      (entryKey kind record.siteScope identifier) record.entry with
  | none => exact Or.inr ⟨rfl, rfl⟩
  | some table => exact Or.inl ⟨table, rfl, changed_recordTargetState ..⟩

theorem applySnapshotIpBlock_eq {record : BlockRecord} {identifier : Str}
    (hvalid : snapshotIdentifier .ip record.identifier = some identifier) (s : Store) :
    s.applySnapshotIpBlock record = applySnapshotBlock .ip s record identifier := by
  obtain ⟨ip, hparse, rfl⟩ := Option.map_eq_some_iff.mp hvalid
  unfold applySnapshotIpBlock
  rw [hparse]

theorem applySnapshotMeshBlock_eq {record : BlockRecord} {identifier : Str}
    (hvalid : snapshotIdentifier .meshId record.identifier = some identifier) (s : Store) :
    s.applySnapshotMeshBlock record = applySnapshotBlock .meshId s record identifier := by
  obtain ⟨-, hid⟩ := Option.ite_none_left_eq_some.mp hvalid
  obtain rfl := Option.some.inj hid
  rfl

/-- A block comes to the operation of its kind unless one of the checks stops it. -/
theorem mergeBlock_cases (kind : BlockTargetKind) (apply : Store → BlockRecord → Bool × Store)
    (count : Bool → BlocklistSnapshotApplyResult → BlocklistSnapshotApplyResult) (now : Nat)
    (s : Store) (record : BlockRecord) :
    (∃ identifier, snapshotIdentifier kind record.identifier = some identifier ∧
      record.isExpired now = false ∧
      holdsBack (s.targetState.get (record.targetKey kind)) record = false ∧
      (mergeBlock kind apply count now (.default, s) record).2 = (apply s record).2) ∨
    IgnoresBlock s now kind record ∧
      (mergeBlock kind apply count now (.default, s) record).2 = s := by
  unfold mergeBlock
  cases hvalid : snapshotIdentifier kind record.identifier with
  | none => exact Or.inr ⟨.invalid hvalid, rfl⟩
  | some identifier =>
    cases hlive : record.isExpired now with
    | true => exact Or.inr ⟨.expired hlive, by simp⟩
    | false =>
      cases hback : holdsBack (s.targetState.get (record.targetKey kind)) record with
      | true => exact Or.inr ⟨.heldBack hback, by simp [hback]⟩
      | false => exact Or.inl ⟨identifier, rfl, rfl, rfl, by simp [hback]⟩

/-- **A block is merged or ignored.** -/
theorem mergeItem_block_cases {s : Store} (henabled : s.enabled = true) (now : Nat)
    (kind : BlockTargetKind) (record : BlockRecord) :
    (∃ identifier table,
      BlockMerged s now kind record identifier table (s.mergeItem now (.block kind record))) ∨
    IgnoresBlock s now kind record ∧ s.mergeItem now (.block kind record) = s := by
  have hpasses : (∃ identifier, snapshotIdentifier kind record.identifier = some identifier ∧
      record.isExpired now = false ∧
      holdsBack (s.targetState.get (record.targetKey kind)) record = false ∧
      s.mergeItem now (.block kind record) = (applySnapshotBlock kind s record identifier).2) ∨
      IgnoresBlock s now kind record ∧ s.mergeItem now (.block kind record) = s := by
    cases kind with
    | ip =>
      rcases mergeBlock_cases .ip applySnapshotIpBlock _ now s record with
        ⟨identifier, hvalid, hlive, hback, heq⟩ | hignored
      · exact Or.inl ⟨identifier, hvalid, hlive, hback,
          heq.trans (congrArg Prod.snd (applySnapshotIpBlock_eq hvalid s))⟩
      · exact Or.inr hignored
    | meshId =>
      rcases mergeBlock_cases .meshId applySnapshotMeshBlock _ now s record with
        ⟨identifier, hvalid, hlive, hback, heq⟩ | hignored
      · exact Or.inl ⟨identifier, hvalid, hlive, hback,
          heq.trans (congrArg Prod.snd (applySnapshotMeshBlock_eq hvalid s))⟩
      · exact Or.inr hignored
  rcases hpasses with ⟨identifier, hvalid, hlive, hback, heq⟩ | hignored
  · rw [heq]
    rcases applySnapshotBlock_cases henabled record identifier with
      ⟨table, hstore, hchanged⟩ | ⟨hfull, hsame⟩
    · exact Or.inl ⟨identifier, table, hvalid, hlive, hback, hstore, hchanged⟩
    · exact Or.inr ⟨.full hvalid hfull, hsame⟩
  · exact Or.inr hignored

/-- A recorded state is taken if it has not expired and is newer than what was
    recorded. -/
theorem mergeItem_targetState_cases (s : Store) (now : Nat) (record : BlocklistTargetStateRecord) :
    (record.isExpired now = false ∧
      (∀ last, s.targetState.get record.targetKey = some last →
        record.lastApplied.isNewerThan last = true) ∧
      s.mergeItem now (.targetState record) =
        s.recordTargetState record.targetKey record.lastApplied) ∨
    ((record.isExpired now = true ∨ ∃ last, s.targetState.get record.targetKey = some last ∧
        record.lastApplied.isNewerThan last = false) ∧
      s.mergeItem now (.targetState record) = s) := by
  unfold mergeItem mergeTargetState
  cases hexpired : record.isExpired now with
  | true => exact Or.inr ⟨Or.inl rfl, by simp [hexpired]⟩
  | false =>
    cases hget : s.targetState.get record.targetKey with
    | none =>
      refine Or.inl ⟨rfl, ?_, by simp [hexpired, hget]⟩
      intro last h
      cases h
    | some last =>
      cases hnewer : record.lastApplied.isNewerThan last with
      | false => exact Or.inr ⟨Or.inr ⟨last, rfl, hnewer⟩, by simp [hexpired, hget, hnewer]⟩
      | true =>
        refine Or.inl ⟨rfl, ?_, by simp [hexpired, hget, hnewer]⟩
        intro last' h
        obtain rfl := Option.some.inj h
        exact hnewer

theorem enabled_mergeItem {s : Store} (h : s.enabled = true) (now : Nat) (item : SnapshotItem) :
    (s.mergeItem now item).enabled = true := by
  rcases item.block_or_state with ⟨kind, record, rfl⟩ | ⟨record, rfl⟩
  · rcases mergeItem_block_cases h now kind record with ⟨_, _, hmerged⟩ | ⟨-, hsame⟩
    · exact hmerged.changed.enabled.trans h
    · rw [hsame, h]
  · rcases mergeItem_targetState_cases s now record with ⟨-, -, heq⟩ | ⟨-, heq⟩
    · rw [heq]
      exact h
    · rw [heq, h]

theorem enabled_foldl_mergeItem {s : Store} (h : s.enabled = true) (now : Nat)
    (items : List SnapshotItem) : (items.foldl (mergeItem now) s).enabled = true := by
  induction items generalizing s with
  | nil => exact h
  | cons item items ih => exact ih (enabled_mergeItem h now item)

end Store

end Synvoid.BlockStore
