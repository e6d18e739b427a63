import Synvoid.BlockStore.EntryPresence
import Synvoid.BlockStore.Snapshot

/-! # What a store has taken over from a peer

    A peer's snapshot is merged page by page. Whatever the pages are, a recorded
    state gives way only to a newer one, and a recorded unblocking gives way to a
    block only if the block is newer. Once all pages are merged, a target whose
    state at the peer was newer than its own was last blocked or unblocked as at
    the peer, if the peer itself holds no block that is newer.

    A merge adds and replaces entries and removes none: a peer that has unblocked
    a target does not take the entry away (`kept_entry_of_unblocked`).
-/

namespace Synvoid.BlockStore

open Synvoid.Framework

/-! ## Section 1: Pages -/

/-- A page with the clocks of the peer that exported it and of the store that it
    is merged into. -/
structure Page where
  exportedAt : Nat
  exportedAt_le : exportedAt ≤ u64Max
  appliedAt : Nat
  chunk : BlocklistSnapshotChunk

/-- The pages that are exported from a cursor on, each asked for with the token of
    the one before, until there are no more. -/
inductive AllPages (peer : Store) (options : BlocklistSnapshotOptions) :
    BlocklistSnapshotCursor → List Page → Prop where
  | last {cursor : BlocklistSnapshotCursor} {page : Page} :
      page.chunk = peer.exportBlocklistSnapshot page.exportedAt options cursor →
      page.chunk.hasMore = false → AllPages peer options cursor [page]
  | next {cursor : BlocklistSnapshotCursor} {page : Page} {token : Str} {pages : List Page} :
      page.chunk = peer.exportBlocklistSnapshot page.exportedAt options cursor →
      page.chunk.nextPageToken = some token → AllPages peer options ⟨some token⟩ pages →
      AllPages peer options cursor (page :: pages)

def Store.applyPages (s : Store) (pages : List Page) : Store :=
  pages.foldl (fun s page => (s.applyBlocklistSnapshot page.appliedAt page.chunk).2) s

/-- The item without the time of its export. -/
def SnapshotItem.unstamped : SnapshotItem → SnapshotItem
  | .targetState record => .targetState { record with recordedAt := 0, expiresAt := none }
  | item => item

@[simp] theorem SnapshotItem.sortKind_unstamped (item : SnapshotItem) :
    item.unstamped.sortKind = item.sortKind := by
  cases item <;> rfl

@[simp] theorem SnapshotItem.sortKey_unstamped (item : SnapshotItem) :
    item.unstamped.sortKey = item.sortKey := by
  cases item <;> rfl

theorem SnapshotItem.sortKind_le_of_sortKey_le {a b : SnapshotItem} (h : a.sortKey ≤ b.sortKey) :
    a.sortKind ≤ b.sortKind := by
  rcases Prod.Lex.le_iff.mp h with hlt | ⟨heq, -⟩
  · exact Nat.le_of_lt hlt
  · exact Nat.le_of_eq heq

theorem pairwise_sortedItems (peer : Store) (now : Nat) (options : BlocklistSnapshotOptions) :
    (peer.sortedItems now options).Pairwise fun a b => a.sortKind ≤ b.sortKind := by
  have : Std.Total fun a b : SnapshotItem => a.sortKey ≤ b.sortKey :=
    ⟨fun a b => le_total a.sortKey b.sortKey⟩
  have : IsTrans SnapshotItem fun a b => a.sortKey ≤ b.sortKey := ⟨fun _ _ _ => le_trans⟩
  exact (List.pairwise_insertionSort _ _).imp SnapshotItem.sortKind_le_of_sortKey_le

/-- Items that come sorted by kind are put together again from the three lists of a
    chunk. -/
theorem items_of_pairwise {l : List SnapshotItem}
    (h : l.Pairwise fun a b => a.sortKind ≤ b.sortKind) :
    (l.filterMap SnapshotItem.ipBlock?).map .ip ++
      (l.filterMap SnapshotItem.meshBlock?).map .mesh ++
      (l.filterMap SnapshotItem.targetState?).map .targetState = l := by
  induction l with
  | nil => rfl
  | cons item l ih =>
    obtain ⟨hitem, hl⟩ := List.pairwise_cons.mp h
    have hrest := ih hl
    cases item with
    | ip record => exact congrArg (List.cons (SnapshotItem.ip record)) hrest
    | mesh record =>
      have hip : l.filterMap SnapshotItem.ipBlock? = [] := by
        rw [List.filterMap_eq_nil_iff]
        intro a ha
        have hkind := hitem a ha
        cases a with
        | ip _ => exact absurd hkind (by decide : ¬ 1 ≤ 0)
        | mesh _ | targetState _ => rfl
      rw [hip] at hrest
      show (l.filterMap SnapshotItem.ipBlock?).map _ ++ _ ++ _ = _
      rw [hip]
      exact congrArg (List.cons (SnapshotItem.mesh record)) hrest
    | targetState record =>
      have hblocks : l.filterMap SnapshotItem.ipBlock? = [] ∧
          l.filterMap SnapshotItem.meshBlock? = [] := by
        rw [List.filterMap_eq_nil_iff, List.filterMap_eq_nil_iff]
        refine ⟨fun a ha => ?_, fun a ha => ?_⟩ <;>
        · have hkind := hitem a ha
          cases a with
          | ip _ => exact absurd hkind (by decide : ¬ 2 ≤ 0)
          | mesh _ => exact absurd hkind (by decide : ¬ 2 ≤ 1)
          | targetState _ => rfl
      rw [hblocks.1, hblocks.2] at hrest
      show (l.filterMap SnapshotItem.ipBlock?).map _ ++
        (l.filterMap SnapshotItem.meshBlock?).map _ ++ _ = _
      rw [hblocks.1, hblocks.2]
      exact congrArg (List.cons (SnapshotItem.targetState record)) hrest

/-- The items of an exported page are a stretch of the sorted items. -/
theorem items_exportBlocklistSnapshot (peer : Store) (now : Nat)
    (options : BlocklistSnapshotOptions) (cursor : BlocklistSnapshotCursor) :
    (peer.exportBlocklistSnapshot now options cursor).items =
      ((peer.sortedItems now options).drop cursor.offset).take options.pageSize :=
  items_of_pairwise ((pairwise_sortedItems peer now options).drop.take)

theorem offset_decimal {n : Nat} (h : n ≤ u64Max) :
    BlocklistSnapshotCursor.offset ⟨some (decimal n)⟩ = n := by
  unfold BlocklistSnapshotCursor.offset
  rw [Option.bind_some, parseUnsigned_decimal h]
  rfl

/-- A page that is not the last one is full, and its token is the offset of the
    next one. -/
theorem nextPageToken_cases (peer : Store) (now : Nat) (options : BlocklistSnapshotOptions)
    (cursor : BlocklistSnapshotCursor) :
    let total := (peer.sortedItems now options).length
    let chunk := peer.exportBlocklistSnapshot now options cursor
    (cursor.offset + options.pageSize < total ∧ chunk.hasMore = true ∧
      chunk.nextPageToken = some (decimal (cursor.offset + options.pageSize))) ∨
    (total ≤ cursor.offset + options.pageSize ∧ chunk.hasMore = false ∧
      chunk.nextPageToken = none) := by
  intro total chunk
  have hlength :
      (((peer.sortedItems now options).drop cursor.offset).take options.pageSize).length =
      min options.pageSize (total - cursor.offset) := by
    rw [List.length_take, List.length_drop]
  have hmore : chunk.hasMore =
      decide (cursor.offset + min options.pageSize (total - cursor.offset) < total) := by
    rw [← hlength]
    rfl
  have htoken : chunk.nextPageToken =
      if chunk.hasMore then
        some (decimal (cursor.offset + min options.pageSize (total - cursor.offset)))
      else none := by
    rw [← hlength]
    rfl
  by_cases hlt : cursor.offset + options.pageSize < total
  · have hmin : min options.pageSize (total - cursor.offset) = options.pageSize := by omega
    rw [hmin] at hmore htoken
    rw [decide_eq_true hlt] at hmore
    rw [hmore, if_pos rfl] at htoken
    exact Or.inl ⟨hlt, hmore, htoken⟩
  · have hnot : ¬ cursor.offset + min options.pageSize (total - cursor.offset) < total := by omega
    rw [decide_eq_false hnot] at hmore
    rw [hmore, if_neg Bool.false_ne_true] at htoken
    exact Or.inr ⟨Nat.le_of_not_lt hlt, hmore, htoken⟩

/-- **The pages from a cursor on hold what comes behind it**, whenever each of
    them was exported, as long as the sorted items do not change. -/
theorem AllPages.items {peer : Store} {options : BlocklistSnapshotOptions}
    {cursor : BlocklistSnapshotCursor} {pages : List Page}
    (h : AllPages peer options cursor pages) {base : List SnapshotItem}
    (hbase : ∀ page ∈ pages,
      (peer.sortedItems page.exportedAt options).map SnapshotItem.unstamped = base)
    (hlength : base.length ≤ u64Max) :
    (pages.flatMap fun page => page.chunk.items).map SnapshotItem.unstamped =
      base.drop cursor.offset := by
  induction h with
  | @last cursor page hchunk hdone =>
    obtain rfl := hbase page (List.mem_singleton_self page)
    rw [List.flatMap_singleton, hchunk, items_exportBlocklistSnapshot, List.map_take,
      List.map_drop]
    rw [hchunk] at hdone
    rcases nextPageToken_cases peer page.exportedAt options cursor with
      ⟨-, hmore, -⟩ | ⟨hle, -, -⟩
    · rw [hmore] at hdone
      cases hdone
    · apply List.take_of_length_le
      rw [List.length_drop, List.length_map]
      omega
  | @next cursor page token pages hchunk htoken _ ih =>
    obtain rfl := hbase page (List.mem_cons_self ..)
    have hrest := ih fun page' hmem => hbase page' (List.mem_cons_of_mem page hmem)
    rw [List.flatMap_cons, List.map_append, hrest, hchunk, items_exportBlocklistSnapshot,
      List.map_take, List.map_drop]
    rw [hchunk] at htoken
    rcases nextPageToken_cases peer page.exportedAt options cursor with
      ⟨hlt, -, heq⟩ | ⟨-, -, hnone⟩
    · obtain rfl := Option.some.inj (heq.symm.trans htoken)
      rw [List.length_map] at hlength
      rw [offset_decimal (by omega), ← List.drop_drop, List.take_append_drop]
    · rw [hnone] at htoken
      cases htoken

/-! ### What is exported at different times -/

theorem isExpired_targetStateRecord {now : Nat} (h : now ≤ u64Max) (ttl : Nat)
    (target : BlocklistTargetKey × LastAppliedBlocklistEvent) :
    (targetStateRecord now ttl target).isExpired now = false := by
  show decide (now > min (now + ttl) u64Max) = false
  rw [decide_eq_false_iff_not]
  omega

/-- A recorded state has not expired when it is exported. -/
theorem exportedStates_eq (peer : Store) {now : Nat} (h : now ≤ u64Max)
    (options : BlocklistSnapshotOptions) :
    peer.exportedStates now options =
      (peer.targetState.entries.filter fun target => options.asksFor target.1.siteScope).map
        (targetStateRecord now peer.config.targetStateTtlSecs) := by
  unfold Store.exportedStates
  rw [List.filter_eq_self]
  intro record hrecord
  obtain ⟨target, -, rfl⟩ := List.mem_map.mp hrecord
  rw [isExpired_targetStateRecord h]
  rfl

theorem exportedBlocks_congr {peer : Store} {now now' : Nat} {kind : BlockTargetKind}
    (hsame : ∀ entry ∈ peer.getAllEntries kind,
      entry.isExpired kind now = entry.isExpired kind now') (options : BlocklistSnapshotOptions) :
    peer.exportedBlocks kind now options = peer.exportedBlocks kind now' options := by
  unfold Store.exportedBlocks
  apply congrArg
  apply List.filter_congr
  intro entry hentry
  rw [hsame entry hentry]

/-- At two times between which no entry expires, the same is exported, but for the
    time. -/
theorem unstamped_collectedItems {peer : Store} {now now' : Nat} (h : now ≤ u64Max)
    (h' : now' ≤ u64Max)
    (hsame : ∀ kind, ∀ entry ∈ peer.getAllEntries kind,
      entry.isExpired kind now = entry.isExpired kind now')
    (options : BlocklistSnapshotOptions) :
    (peer.collectedItems now options).map SnapshotItem.unstamped =
      (peer.collectedItems now' options).map SnapshotItem.unstamped := by
  have hblocks : ∀ kind, peer.exportedBlocks kind now options =
      peer.exportedBlocks kind now' options := fun kind =>
    exportedBlocks_congr (hsame kind) options
  have hstates : ∀ t ≤ u64Max, ((peer.exportedStates t options).map SnapshotItem.targetState).map
      SnapshotItem.unstamped =
        (peer.targetState.entries.filter fun target => options.asksFor target.1.siteScope).map
          fun target => (SnapshotItem.targetState (targetStateRecord 0 0 target)).unstamped := by
    intro t ht
    rw [exportedStates_eq peer ht, List.map_map, List.map_map]
    rfl
  unfold Store.collectedItems
  simp only [List.map_append, hblocks]
  cases options.includeTargetState with
  | false => rfl
  | true => rw [if_pos rfl, if_pos rfl, hstates now h, hstates now' h']

theorem unstamped_sortedItems (peer : Store) (now : Nat) (options : BlocklistSnapshotOptions) :
    (peer.sortedItems now options).map SnapshotItem.unstamped =
      ((peer.collectedItems now options).map SnapshotItem.unstamped).insertionSort
        fun a b => a.sortKey ≤ b.sortKey := by
  unfold Store.sortedItems
  apply List.map_insertionSort
  intro a _ b _
  rw [SnapshotItem.sortKey_unstamped, SnapshotItem.sortKey_unstamped]

/-! ## Section 2: One target -/

def SnapshotItem.targetKey : SnapshotItem → BlocklistTargetKey
  | .ip record => record.targetKey .ip
  | .mesh record => record.targetKey .meshId
  | .targetState record => record.targetKey

def SnapshotItem.isExpired (now : Nat) : SnapshotItem → Bool
  | .ip record | .mesh record => record.isExpired now
  | .targetState record => record.isExpired now

/-- The record of a block of the given kind. -/
def SnapshotItem.blockOf? : BlockTargetKind → SnapshotItem → Option BlockRecord
  | .ip, item => item.ipBlock?
  | .meshId, item => item.meshBlock?

/-- The block goes into the store if this was recorded last for its target. -/
def takesBlock (kind : BlockTargetKind) (last : Option LastAppliedBlocklistEvent)
    (record : BlockRecord) : Bool :=
  (Store.snapshotIdentifier kind record.identifier).isSome && !Store.holdsBack last record

/-- What is recorded for a target when an item for it was merged, while nothing
    expires and there is room. -/
def recordedAfter (last : Option LastAppliedBlocklistEvent) :
    SnapshotItem → Option LastAppliedBlocklistEvent
  | .ip record => if takesBlock .ip last record then some record.candidate else last
  | .mesh record => if takesBlock .meshId last record then some record.candidate else last
  | .targetState record =>
      if last.all record.lastApplied.isNewerThan then some record.lastApplied else last

/-- There is room for the items: for the recorded states in a list of keys, for
    the entries in the tables. -/
structure RoomFor (K : List BlocklistTargetKey) (s : Store) (items : List SnapshotItem) :
    Prop where
  enabled : s.enabled = true
  length_le : K.length ≤ targetStateMax
  keys : s.targetState.keys ⊆ K
  itemKeys : ∀ item ∈ items, item.targetKey ∈ K
  entries : ∀ kind,
    (s.table kind).total + (items.filterMap (SnapshotItem.blockOf? kind)).length ≤
      s.config.maxEntries

namespace SnapshotItem

theorem block_inj {kind kind' : BlockTargetKind} {record record' : BlockRecord}
    (h : block kind record = block kind' record') : kind = kind' ∧ record = record' := by
  cases kind <;> cases kind' <;> cases h <;> exact ⟨rfl, rfl⟩

theorem sortKind_block_ne (kind : BlockTargetKind) (record : BlockRecord) :
    (block kind record).sortKind ≠ 2 := by
  cases kind <;> exact fun h => nomatch h

@[simp] theorem targetKey_block (kind : BlockTargetKind) (record : BlockRecord) :
    (block kind record).targetKey = record.targetKey kind := by
  cases kind <;> rfl

@[simp] theorem isExpired_block (now : Nat) (kind : BlockTargetKind) (record : BlockRecord) :
    (block kind record).isExpired now = record.isExpired now := by
  cases kind <;> rfl

theorem recordedAfter_block (last : Option LastAppliedBlocklistEvent) (kind : BlockTargetKind)
    (record : BlockRecord) :
    recordedAfter last (block kind record) =
      if takesBlock kind last record then some record.candidate else last := by
  cases kind <;> rfl

theorem blockOf?_block (kind kind' : BlockTargetKind) (record : BlockRecord) :
    (block kind record).blockOf? kind' = if kind' = kind then some record else none := by
  cases kind <;> cases kind' <;> rfl

@[simp] theorem blockOf?_targetState (kind : BlockTargetKind)
    (record : BlocklistTargetStateRecord) : (targetState record).blockOf? kind = none := by
  cases kind <;> rfl

end SnapshotItem

section room

variable {K : List BlocklistTargetKey} {s : Store} {items : List SnapshotItem} {now : Nat}

/-- With room, a block that has not expired goes into the store unless it is invalid
    or held back. -/
theorem mergeItem_block_of_room {kind : BlockTargetKind} {record : BlockRecord}
    (hroom : RoomFor K s (.block kind record :: items)) (hlive : record.isExpired now = false) :
    (takesBlock kind (s.targetState.get (record.targetKey kind)) record = true ∧
      ∃ identifier, Store.snapshotIdentifier kind record.identifier = some identifier ∧
        Store.Changed s kind
          { entries :=
              (s.table kind).entries.insert (entryKey kind record.siteScope identifier) record.entry
            total :=
              if ((s.table kind).entries.lookup
                  (entryKey kind record.siteScope identifier)).isNone then
                (s.table kind).total + 1
              else (s.table kind).total }
          (s.targetState.insert (record.targetKey kind) record.candidate)
          (s.mergeItem now (.block kind record))) ∨
    (takesBlock kind (s.targetState.get (record.targetKey kind)) record = false ∧
      s.mergeItem now (.block kind record) = s) := by
  have hlt : (s.table kind).total < s.config.maxEntries := by
    have hentries := hroom.entries kind
    rw [List.filterMap_cons, SnapshotItem.blockOf?_block, if_pos rfl] at hentries
    simp only [List.length_cons] at hentries
    omega
  unfold takesBlock
  rcases Store.mergeItem_block_cases hroom.enabled now kind record with
    ⟨identifier, table, hmerged⟩ | ⟨hwhy, hsame⟩
  · left
    have hstore := hmerged.store
    rw [Shards.store_of_room (Or.inr hlt)] at hstore
    obtain rfl := Option.some.inj hstore
    rw [hmerged.valid, hmerged.notHeldBack]
    exact ⟨rfl, identifier, rfl, hmerged.changed⟩
  · right
    refine ⟨?_, hsame⟩
    cases hwhy with
    | invalid h => simp [h]
    | expired h => simp [hlive] at h
    | heldBack h => simp [h]
    | full hid h =>
      rw [Shards.store_of_room (Or.inr hlt)] at h
      cases h

/-- **Step.** An item of another target leaves the record of a target alone; an item
    of its own decides by what was recorded. -/
theorem get_mergeItem {item : SnapshotItem} (hroom : RoomFor K s (item :: items))
    (hlive : item.isExpired now = false) (key : BlocklistTargetKey) :
    (s.mergeItem now item).targetState.get key =
      if item.targetKey = key then recordedAfter (s.targetState.get key) item
      else s.targetState.get key := by
  have hinsert := fun state => FifoCache.get_insert_of_room
    (FifoCache.room_of_subset hroom.keys hroom.length_le
      (hroom.itemKeys item (List.mem_cons_self ..))) state key
  rcases item.block_or_state with ⟨kind, record, rfl⟩ | ⟨record, rfl⟩
  · rw [SnapshotItem.isExpired_block] at hlive
    rw [SnapshotItem.targetKey_block] at hinsert ⊢
    rw [SnapshotItem.recordedAfter_block]
    rcases mergeItem_block_of_room hroom hlive with
      ⟨htakes, identifier, -, hchanged⟩ | ⟨htakes, hsame⟩
    · rw [hchanged.targetState, hinsert]
      by_cases hkey : record.targetKey kind = key
      · subst hkey
        rw [if_pos rfl, if_pos rfl, if_pos htakes]
      · rw [if_neg (Ne.symm hkey), if_neg hkey]
    · rw [hsame]
      split
      · next hkey =>
        subst hkey
        rw [htakes, if_neg Bool.false_ne_true]
      · rfl
  · rcases Store.mergeItem_targetState_cases s now record with
      ⟨-, hnewer, heq⟩ | ⟨hexpired | ⟨last, hlast, holder⟩, heq⟩
    · rw [heq]
      refine (hinsert record.lastApplied).trans ?_
      by_cases hkey : record.targetKey = key
      · have hall : (s.targetState.get key).all record.lastApplied.isNewerThan = true := by
          subst hkey
          rw [Option.all_eq_true]
          exact hnewer
        refine (if_pos hkey.symm).trans ((if_pos hkey).trans ?_).symm
        exact if_pos hall
      · exact (if_neg (Ne.symm hkey)).trans (if_neg hkey).symm
    · have hnot : record.isExpired now = false := hlive
      rw [hexpired] at hnot
      cases hnot
    · rw [heq]
      split
      · next hkey =>
        have hall : (s.targetState.get key).all record.lastApplied.isNewerThan = false := by
          rw [← hkey]
          show (s.targetState.get record.targetKey).all _ = false
          rw [hlast, Option.all_some, holder]
        exact (if_neg (by rw [hall]; exact Bool.false_ne_true)).symm
      · rfl

theorem entryKey_targetKey {kind : BlockTargetKind} {record : BlockRecord} {identifier : Str}
    (hvalid : Store.snapshotIdentifier kind record.identifier = some identifier) :
    (record.targetKey kind).entryKey = some (entryKey kind record.siteScope identifier) := by
  unfold BlocklistTargetKey.entryKey
  show (entryIdentifier kind record.identifier).map _ = _
  have hid : entryIdentifier kind record.identifier = some identifier := by
    cases kind with
    | ip => exact hvalid
    | meshId => exact (Option.ite_none_left_eq_some.mp hvalid).2
  rw [hid]
  rfl

theorem hasEntry_congr {s' : Store} (htables : ∀ kind, s'.table kind = s.table kind)
    (key : BlocklistTargetKey) : s'.hasEntry key = s.hasEntry key := by
  unfold Store.hasEntry
  rw [htables]

theorem table_mergeItem_targetState (s : Store) (now : Nat) (record : BlocklistTargetStateRecord)
    (kind : BlockTargetKind) :
    (s.mergeItem now (.targetState record)).table kind = s.table kind := by
  rcases Store.mergeItem_targetState_cases s now record with ⟨-, -, heq⟩ | ⟨-, heq⟩
  · rw [heq, Store.table_recordTargetState]
  · rw [heq]

/-- An entry that was put in is the entry of the targets that share it. -/
theorem hasEntry_of_inserted {s' : Store} {kind : BlockTargetKind} {record : BlockRecord}
    {identifier : Str} (hvalid : Store.snapshotIdentifier kind record.identifier = some identifier)
    {table : Shards} (htable : s'.table kind = table)
    (hentries : table.entries =
      (s.table kind).entries.insert (entryKey kind record.siteScope identifier) record.entry)
    (hothers : ∀ kind', kind' ≠ kind → s'.table kind' = s.table kind')
    (key : BlocklistTargetKey) :
    s'.hasEntry key = true ↔ s.hasEntry key = true ∨ SharesEntry (record.targetKey kind) key := by
  unfold SharesEntry Store.hasEntry
  rw [entryKey_targetKey hvalid]
  show _ ↔ _ ∨ kind = key.targetKind ∧ _
  by_cases hkind : key.targetKind = kind
  · subst hkind
    cases hk : key.entryKey with
    | none => simp
    | some k =>
      rw [Option.any_some, Option.any_some, htable, hentries, Table.lookup_insert_eq]
      by_cases heq : k = entryKey key.targetKind record.siteScope identifier
      · simp [heq]
      · simp [heq, Ne.symm heq]
  · rw [hothers _ hkind]
    simp [Ne.symm hkind]

/-- **Step.** A merge removes no entry. It makes one for the targets that share the
    entry of a block that goes into the store. -/
theorem hasEntry_mergeItem {item : SnapshotItem} (hroom : RoomFor K s (item :: items))
    (hlive : item.isExpired now = false) (key : BlocklistTargetKey) :
    (s.mergeItem now item).hasEntry key = true ↔
      s.hasEntry key = true ∨ ∃ kind record, item = .block kind record ∧
        takesBlock kind (s.targetState.get (record.targetKey kind)) record = true ∧
        SharesEntry (record.targetKey kind) key := by
  rcases item.block_or_state with ⟨kind, record, rfl⟩ | ⟨record, rfl⟩
  · rw [SnapshotItem.isExpired_block] at hlive
    have hitem : (∃ kind' record', SnapshotItem.block kind record = .block kind' record' ∧
        takesBlock kind' (s.targetState.get (record'.targetKey kind')) record' = true ∧
        SharesEntry (record'.targetKey kind') key) ↔
        takesBlock kind (s.targetState.get (record.targetKey kind)) record = true ∧
          SharesEntry (record.targetKey kind) key := by
      constructor
      · rintro ⟨kind', record', heq, h⟩
        obtain ⟨rfl, rfl⟩ := SnapshotItem.block_inj heq
        exact h
      · intro h
        exact ⟨kind, record, rfl, h⟩
    rw [hitem]
    rcases mergeItem_block_of_room hroom hlive with
      ⟨htakes, identifier, hvalid, hchanged⟩ | ⟨htakes, hsame⟩
    · simp only [htakes, true_and]
      exact hasEntry_of_inserted hvalid hchanged.table rfl hchanged.others key
    · rw [hsame, htakes]
      simp
  · have hitem : ¬ ∃ kind record', SnapshotItem.targetState record = .block kind record' ∧
        takesBlock kind (s.targetState.get (record'.targetKey kind)) record' = true ∧
        SharesEntry (record'.targetKey kind) key := by
      rintro ⟨kind, record', heq, -⟩
      cases kind <;> cases heq
    rw [or_iff_left hitem, hasEntry_congr (table_mergeItem_targetState s now record)]

/-- **Step.** What was room for an item and others is room for the others. -/
theorem RoomFor.mergeItem {item : SnapshotItem} (hroom : RoomFor K s (item :: items))
    (hlive : item.isExpired now = false) : RoomFor K (s.mergeItem now item) items := by
  have hkey : item.targetKey ∈ K := hroom.itemKeys item (List.mem_cons_self ..)
  have hkeys : ∀ item' ∈ items, item'.targetKey ∈ K := fun item' hmem =>
    hroom.itemKeys item' (List.mem_cons_of_mem item hmem)
  have hentries := hroom.entries
  simp only [List.filterMap_cons] at hentries
  rcases item.block_or_state with ⟨kind, record, rfl⟩ | ⟨record, rfl⟩
  · rw [SnapshotItem.isExpired_block] at hlive
    rw [SnapshotItem.targetKey_block] at hkey
    rcases mergeItem_block_of_room hroom hlive with ⟨-, identifier, -, hchanged⟩ | ⟨-, hsame⟩
    · refine ⟨hchanged.enabled.trans hroom.enabled, hroom.length_le, ?_, hkeys, ?_⟩
      · rw [hchanged.targetState]
        exact FifoCache.keys_insert_subset_of hroom.keys hkey _
      · intro kind'
        have hroom' := hentries kind'
        rw [SnapshotItem.blockOf?_block] at hroom'
        rw [hchanged.config]
        by_cases hkind : kind' = kind
        · subst hkind
          rw [if_pos rfl, List.length_cons] at hroom'
          have htotal : ((s.mergeItem now (.block kind' record)).table kind').total ≤
              (s.table kind').total + 1 := by
            rw [hchanged.table]
            dsimp only
            split
            · exact Nat.le_refl _
            · exact Nat.le_succ _
          omega
        · rw [if_neg hkind] at hroom'
          rw [hchanged.others kind' hkind]
          exact hroom'
    · rw [hsame]
      refine ⟨hroom.enabled, hroom.length_le, hroom.keys, hkeys, ?_⟩
      intro kind'
      have hroom' := hentries kind'
      split at hroom'
      · exact hroom'
      · rw [List.length_cons] at hroom'
        omega
  · simp only [SnapshotItem.blockOf?_targetState] at hentries
    rcases Store.mergeItem_targetState_cases s now record with ⟨-, -, heq⟩ | ⟨-, heq⟩
    · rw [heq]
      refine ⟨hroom.enabled, hroom.length_le, ?_, hkeys, ?_⟩
      · exact FifoCache.keys_insert_subset_of hroom.keys hkey record.lastApplied
      · intro kind
        rw [Store.table_recordTargetState]
        exact hentries kind
    · rw [heq]
      exact ⟨hroom.enabled, hroom.length_le, hroom.keys, hkeys, hentries⟩

end room

/-! ## Section 3: All items -/

/-- The items with the clock at which each of them is merged. -/
def Store.mergeRun (s : Store) (run : List (Nat × SnapshotItem)) : Store :=
  run.foldl (fun s step => s.mergeItem step.1 step.2) s

def pagesRun (pages : List Page) : List (Nat × SnapshotItem) :=
  pages.flatMap fun page => page.chunk.items.map (page.appliedAt, ·)

/-- Merging the pages is merging their items, one after the other. -/
theorem applyPages_eq {s : Store} (h : s.enabled = true) (pages : List Page) :
    s.applyPages pages = s.mergeRun (pagesRun pages) := by
  induction pages generalizing s with
  | nil => rfl
  | cons page pages ih =>
    have hpage := Store.applyBlocklistSnapshot_snd h page.appliedAt page.chunk
    unfold Store.applyPages at ih ⊢
    unfold Store.mergeRun pagesRun at ih ⊢
    rw [List.foldl_cons, hpage,
      ih (Store.enabled_foldl_mergeItem h page.appliedAt page.chunk.items),
      List.flatMap_cons, List.foldl_append, List.foldl_map]

/-- What an item makes of the record of a target. -/
def stateStep (key : BlocklistTargetKey) (last : Option LastAppliedBlocklistEvent)
    (item : SnapshotItem) : Option LastAppliedBlocklistEvent :=
  if item.targetKey = key then recordedAfter last item else last

section run

variable {K : List BlocklistTargetKey} {s : Store} {run : List (Nat × SnapshotItem)}

theorem get_mergeRun (hroom : RoomFor K s (run.map Prod.snd))
    (hlive : ∀ step ∈ run, step.2.isExpired step.1 = false) (key : BlocklistTargetKey) :
    (s.mergeRun run).targetState.get key =
      (run.map Prod.snd).foldl (stateStep key) (s.targetState.get key) := by
  induction run generalizing s with
  | nil => rfl
  | cons step run ih =>
    obtain ⟨hstep, hrest⟩ := List.forall_mem_cons.mp hlive
    rw [List.map_cons, List.foldl_cons]
    have hget := get_mergeItem hroom hstep key
    have hrun := ih (hroom.mergeItem hstep) hrest
    rw [hget] at hrun
    exact hrun

/-- **Run.** No target loses its entry. -/
theorem hasEntry_mergeRun_of_hasEntry (hroom : RoomFor K s (run.map Prod.snd))
    (hlive : ∀ step ∈ run, step.2.isExpired step.1 = false) {key : BlocklistTargetKey}
    (h : s.hasEntry key = true) : (s.mergeRun run).hasEntry key = true := by
  induction run generalizing s with
  | nil => exact h
  | cons step run ih =>
    obtain ⟨hstep, hrest⟩ := List.forall_mem_cons.mp hlive
    exact ih (hroom.mergeItem hstep) hrest ((hasEntry_mergeItem hroom hstep key).mpr (Or.inl h))

/-- A block of the target that goes into the store if this was recorded last. -/
def TakesBlockOf (key : BlocklistTargetKey) (last : Option LastAppliedBlocklistEvent)
    (item : SnapshotItem) : Prop :=
  ∃ record, item = .block key.targetKind record ∧ record.targetKey key.targetKind = key ∧
    takesBlock key.targetKind last record = true

/-- If a target shares its entry with no other, the blocks that make its entry are
    its own. -/
theorem takesBlockOf_iff {item : SnapshotItem} {key : BlocklistTargetKey}
    (hapart : ∀ kind record, item = .block kind record →
      SharesEntry (record.targetKey kind) key → record.targetKey kind = key) :
    (∃ kind record, item = .block kind record ∧
      takesBlock kind (s.targetState.get (record.targetKey kind)) record = true ∧
      SharesEntry (record.targetKey kind) key) ↔
    TakesBlockOf key (s.targetState.get key) item := by
  constructor
  · rintro ⟨kind, record, heq, htakes, hshares⟩
    have hkey := hapart kind record heq hshares
    obtain rfl : kind = key.targetKind := congrArg BlocklistTargetKey.targetKind hkey
    rw [hkey] at htakes
    exact ⟨record, heq, hkey, htakes⟩
  · rintro ⟨record, heq, hkey, htakes⟩
    have hvalid := (Bool.and_eq_true_iff.mp htakes).1
    obtain ⟨identifier, hid⟩ := Option.isSome_iff_exists.mp hvalid
    have hentry := entryKey_targetKey hid
    rw [hkey] at hentry
    refine ⟨key.targetKind, record, heq, ?_, ?_⟩
    · rw [hkey]
      exact htakes
    · rw [hkey]
      exact ⟨rfl, by rw [hentry]; rfl, rfl⟩

/-- **Run.** A target has an entry if it had one before or if a block of its own went
    into the store. Blocks come before recorded states, so what decides is what was
    recorded before the run. -/
theorem hasEntry_mergeRun (hroom : RoomFor K s (run.map Prod.snd))
    (hlive : ∀ step ∈ run, step.2.isExpired step.1 = false)
    (hsorted : (run.map Prod.snd).Pairwise fun a b => a.sortKind ≤ b.sortKind)
    {key : BlocklistTargetKey}
    (hapart : ∀ kind record, SnapshotItem.block kind record ∈ run.map Prod.snd →
      SharesEntry (record.targetKey kind) key → record.targetKey kind = key) :
    (s.mergeRun run).hasEntry key = true ↔
      s.hasEntry key = true ∨
        ∃ item ∈ run.map Prod.snd, TakesBlockOf key (s.targetState.get key) item := by
  induction run generalizing s with
  | nil => simp [Store.mergeRun]
  | cons step run ih =>
    obtain ⟨now, item⟩ := step
    obtain ⟨hstep, hrest⟩ := List.forall_mem_cons.mp hlive
    obtain ⟨hkinds, hsorted'⟩ := List.pairwise_cons.mp hsorted
    have hrun := ih (hroom.mergeItem hstep) hrest hsorted'
      fun kind record hmem => hapart kind record (List.mem_cons_of_mem _ hmem)
    have hentry := hasEntry_mergeItem hroom hstep key
    rw [takesBlockOf_iff fun kind record heq => hapart kind record (heq ▸ List.mem_cons_self ..)]
      at hentry
    show ((s.mergeItem now item).mergeRun run).hasEntry key = true ↔ _
    rw [hrun, hentry, or_assoc, List.map_cons]
    simp only [List.mem_cons, exists_eq_or_imp]
    by_cases htakes : TakesBlockOf key (s.targetState.get key) item
    · simp [htakes]
    -- the record may change with a recorded state only, and no block comes behind that
    · apply or_congr_right
      apply or_congr_right
      rcases item.block_or_state with ⟨kind, record, rfl⟩ | ⟨record, rfl⟩
      · rw [get_mergeItem hroom hstep key]
        have hsame : stateStep key (s.targetState.get key) (.block kind record) =
            s.targetState.get key := by
          unfold stateStep
          rw [SnapshotItem.targetKey_block, SnapshotItem.recordedAfter_block]
          split
          · next hkey =>
            apply if_neg
            intro hblock
            obtain rfl : kind = key.targetKind := congrArg BlocklistTargetKey.targetKind hkey
            exact htakes ⟨record, rfl, hkey, hblock⟩
          · rfl
        exact Iff.of_eq (congrArg
          (fun last => ∃ item ∈ run.map Prod.snd, TakesBlockOf key last item)
          hsame)
      · have hnone : ∀ last, ¬ ∃ item ∈ run.map Prod.snd, TakesBlockOf key last item := by
          rintro last ⟨_, hmem, record', rfl, -⟩
          have hkind := hkinds _ hmem
          cases htarget : key.targetKind <;> rw [htarget] at hkind
          · exact absurd hkind (by decide : ¬ 2 ≤ 0)
          · exact absurd hkind (by decide : ¬ 2 ≤ 1)
        exact iff_of_false (hnone _) (hnone _)

end run

/-! ### The record of a target behind all items -/

/-- Recorded states are of different targets. -/
def StatesApart (a b : SnapshotItem) : Prop :=
  a.sortKind = 2 → b.sortKind = 2 → a.targetKey ≠ b.targetKey

theorem foldl_stateStep_of_ne {key : BlocklistTargetKey} {items : List SnapshotItem}
    (h : ∀ item ∈ items, item.targetKey ≠ key) (last : Option LastAppliedBlocklistEvent) :
    items.foldl (stateStep key) last = last := by
  induction items with
  | nil => rfl
  | cons item items ih =>
    obtain ⟨hitem, hrest⟩ := List.forall_mem_cons.mp h
    have hstep : stateStep key last item = last := if_neg hitem
    rw [List.foldl_cons, hstep, ih hrest]

/-- **Run.** A target was last blocked or unblocked as its recorded state says, if
    that is newer than what was recorded before and than the blocks of the target, or
    if all of them are blocks. -/
theorem operation_foldl_stateStep {key : BlocklistTargetKey} {items : List SnapshotItem}
    (hsorted : items.Pairwise fun a b => a.sortKind ≤ b.sortKind)
    (hapart : items.Pairwise StatesApart) {record : BlocklistTargetStateRecord}
    (hmem : SnapshotItem.targetState record ∈ items) (hkey : record.targetKey = key)
    {last : Option LastAppliedBlocklistEvent}
    (hlast : ∀ l, last = some l → record.lastApplied.isNewerThan l = true ∨
      record.lastOperation = .block ∧ l.operation = .block)
    (hblocks : ∀ kind r, SnapshotItem.block kind r ∈ items → r.targetKey kind = key →
      record.lastApplied.isNewerThan r.candidate = true ∨ record.lastOperation = .block) :
    (items.foldl (stateStep key) last).map (·.operation) = some record.lastOperation := by
  induction items generalizing last with
  | nil => cases hmem
  | cons item items ih =>
    obtain ⟨hkinds, hsorted'⟩ := List.pairwise_cons.mp hsorted
    obtain ⟨hitem, hapart'⟩ := List.pairwise_cons.mp hapart
    have hblocks' : ∀ kind r, SnapshotItem.block kind r ∈ items → r.targetKey kind = key →
        record.lastApplied.isNewerThan r.candidate = true ∨ record.lastOperation = .block :=
      fun kind r hr => hblocks kind r (List.mem_cons_of_mem item hr)
    rw [List.foldl_cons]
    rcases List.mem_cons.mp hmem with heq | hmem'
    -- the recorded state itself: behind it come recorded states of other targets
    · subst heq
      have hrest : ∀ other ∈ items, other.targetKey ≠ key := by
        intro other hother
        have hkind : other.sortKind = 2 := by
          have hle : 2 ≤ other.sortKind := hkinds other hother
          cases other with
          | ip _ => exact absurd hle (by decide : ¬ 2 ≤ 0)
          | mesh _ => exact absurd hle (by decide : ¬ 2 ≤ 1)
          | targetState _ => rfl
        rw [← hkey]
        exact Ne.symm (hitem other hother rfl hkind)
      rw [foldl_stateStep_of_ne hrest]
      unfold stateStep
      rw [if_pos (show (SnapshotItem.targetState record).targetKey = key from hkey)]
      show (if last.all record.lastApplied.isNewerThan then some record.lastApplied else last).map
        _ = _
      split
      · rfl
      · next hnot =>
        cases last with
        | none => exact absurd rfl hnot
        | some l =>
          rcases hlast l rfl with hnewer | ⟨hrecord, hl⟩
          · exact absurd hnewer hnot
          · rw [Option.map_some, hrecord, hl]
    -- another item: what it leaves for the target still gives way or is a block
    · refine ih hsorted' hapart' hmem' ?_ hblocks'
      intro l hl
      unfold stateStep at hl
      split at hl
      · next htarget =>
        rcases item.block_or_state with ⟨kind, r, rfl⟩ | ⟨r, rfl⟩
        · rw [SnapshotItem.recordedAfter_block] at hl
          rw [SnapshotItem.targetKey_block] at htarget
          split at hl
          · obtain rfl := Option.some.inj hl
            rcases hblocks kind r (List.mem_cons_self ..) htarget with hnewer | hblock
            · exact Or.inl hnewer
            · exact Or.inr ⟨hblock, rfl⟩
          · exact hlast l hl
        · exact absurd (htarget.trans hkey.symm) (hitem _ hmem' rfl rfl)
      · exact hlast l hl

/-! ## Section 4: What the pages hold -/

/-- Everything is asked for. -/
structure BlocklistSnapshotOptions.Full (options : BlocklistSnapshotOptions) : Prop where
  ipBlocks : options.includeIpBlocks = true
  meshIdBlocks : options.includeMeshIdBlocks = true
  targetState : options.includeTargetState = true
  siteScope : options.siteScope = none

section snapshot

variable {peer : Store} {now : Nat} {options : BlocklistSnapshotOptions}
  {items : List SnapshotItem}

theorem collectedItems_eq (hfull : options.Full) (peer : Store) (now : Nat) :
    peer.collectedItems now options =
      (peer.exportedBlocks .ip now options).map .ip ++
      (peer.exportedBlocks .meshId now options).map .mesh ++
      (peer.exportedStates now options).map .targetState := by
  unfold Store.collectedItems
  rw [if_pos hfull.ipBlocks, if_pos hfull.meshIdBlocks, if_pos hfull.targetState]

theorem exportedStates_eq_of_full (hfull : options.Full) (peer : Store) (hnow : now ≤ u64Max) :
    peer.exportedStates now options =
      peer.targetState.entries.map (targetStateRecord now peer.config.targetStateTtlSecs) := by
  rw [exportedStates_eq peer hnow, List.filter_eq_self.mpr]
  intro target _
  unfold BlocklistSnapshotOptions.asksFor
  rw [hfull.siteScope]
  rfl

theorem block_mem_collectedItems (hfull : options.Full) {kind : BlockTargetKind}
    {record : BlockRecord} :
    SnapshotItem.block kind record ∈ peer.collectedItems now options ↔
      record ∈ peer.exportedBlocks kind now options := by
  rw [collectedItems_eq hfull]
  cases kind <;> simp [SnapshotItem.block]

theorem statesApart_collectedItems (hfull : options.Full) (hnow : now ≤ u64Max) :
    (peer.collectedItems now options).Pairwise StatesApart := by
  have hstates : ((peer.exportedStates now options).map SnapshotItem.targetState).Pairwise
      StatesApart := by
    rw [exportedStates_eq_of_full hfull peer hnow, List.pairwise_map, List.pairwise_map]
    have hnodup := peer.targetState.nodup_keys
    rw [List.Nodup, List.pairwise_map] at hnodup
    exact hnodup.imp fun hne _ _ => hne
  have hblocks : ∀ (l : List BlockRecord) (kind : BlockTargetKind) (others : List SnapshotItem),
      others.Pairwise StatesApart →
      (l.map (SnapshotItem.block kind) ++ others).Pairwise StatesApart := by
    intro l kind others hothers
    induction l with
    | nil => exact hothers
    | cons record l ih =>
      refine List.pairwise_cons.mpr ⟨fun _ _ hkind => ?_, ih⟩
      cases kind <;> cases hkind
  rw [collectedItems_eq hfull, List.append_assoc]
  exact hblocks _ .ip _ (hblocks _ .meshId _ hstates)

@[simp] theorem SnapshotItem.targetKey_unstamped (item : SnapshotItem) :
    item.unstamped.targetKey = item.targetKey := by
  cases item <;> rfl

theorem SnapshotItem.unstamped_eq_block {item : SnapshotItem} {kind : BlockTargetKind}
    {record : BlockRecord} : item.unstamped = .block kind record ↔ item = .block kind record := by
  cases item <;> cases kind <;> simp [SnapshotItem.unstamped, SnapshotItem.block]

theorem SnapshotItem.blockOf?_unstamped (kind : BlockTargetKind) (item : SnapshotItem) :
    item.unstamped.blockOf? kind = item.blockOf? kind := by
  cases item <;> cases kind <;> rfl

/-- The item is the recorded state of a target. -/
def SnapshotItem.HoldsState (key : BlocklistTargetKey) (state : LastAppliedBlocklistEvent)
    (item : SnapshotItem) : Prop :=
  ∃ record, item = .targetState record ∧ record.targetKey = key ∧ record.lastApplied = state

theorem SnapshotItem.holdsState_unstamped (key : BlocklistTargetKey)
    (state : LastAppliedBlocklistEvent) (item : SnapshotItem) :
    item.unstamped.HoldsState key state ↔ item.HoldsState key state := by
  unfold SnapshotItem.HoldsState
  cases item with
  | ip _ | mesh _ => rfl
  | targetState record =>
    constructor
    · rintro ⟨_, heq, hkey, hstate⟩
      obtain rfl := SnapshotItem.targetState.inj heq
      exact ⟨record, rfl, hkey, hstate⟩
    · rintro ⟨_, heq, hkey, hstate⟩
      obtain rfl := SnapshotItem.targetState.inj heq
      exact ⟨_, rfl, hkey, hstate⟩

/-- The items are the sorted items of the peer, but for the time of their export. -/
def IsSnapshot (peer : Store) (now : Nat) (options : BlocklistSnapshotOptions)
    (items : List SnapshotItem) : Prop :=
  items.map SnapshotItem.unstamped = (peer.sortedItems now options).map SnapshotItem.unstamped

namespace IsSnapshot

variable (h : IsSnapshot peer now options items)
include h

theorem perm : (items.map SnapshotItem.unstamped).Perm
    ((peer.collectedItems now options).map SnapshotItem.unstamped) := by
  rw [h]
  exact (List.perm_insertionSort _ _).map _

theorem pairwise_sortKind : items.Pairwise fun a b => a.sortKind ≤ b.sortKind := by
  have hsorted : (items.map SnapshotItem.unstamped).Pairwise fun a b =>
      a.sortKind ≤ b.sortKind := by
    rw [h, List.pairwise_map]
    simp only [SnapshotItem.sortKind_unstamped]
    exact pairwise_sortedItems peer now options
  rw [List.pairwise_map] at hsorted
  simpa only [SnapshotItem.sortKind_unstamped] using hsorted

theorem statesApart (hfull : options.Full) (hnow : now ≤ u64Max) : items.Pairwise StatesApart := by
  have hcollected : ((peer.collectedItems now options).map SnapshotItem.unstamped).Pairwise
      StatesApart := by
    rw [List.pairwise_map]
    exact (statesApart_collectedItems hfull hnow).imp fun hapart => by
      simpa [StatesApart] using hapart
  have hitems := h.perm.symm.pairwise hcollected fun hapart hb ha => Ne.symm (hapart ha hb)
  rw [List.pairwise_map] at hitems
  exact hitems.imp fun hapart => by simpa [StatesApart] using hapart

theorem block_mem (hfull : options.Full) {kind : BlockTargetKind} {record : BlockRecord} :
    SnapshotItem.block kind record ∈ items ↔ record ∈ peer.exportedBlocks kind now options := by
  have hmem : ∀ l : List SnapshotItem, SnapshotItem.block kind record ∈ l ↔
      SnapshotItem.block kind record ∈ l.map SnapshotItem.unstamped := by
    intro l
    simp [List.mem_map, SnapshotItem.unstamped_eq_block]
  rw [hmem, h.perm.mem_iff, ← hmem, block_mem_collectedItems hfull]

/-- The items hold the recorded states of the peer. -/
theorem exists_holdsState (hfull : options.Full) (hnow : now ≤ u64Max) {key : BlocklistTargetKey}
    {state : LastAppliedBlocklistEvent} :
    (∃ item ∈ items, item.HoldsState key state) ↔ peer.targetState.get key = some state := by
  have hunstamped : ∀ l : List SnapshotItem, (∃ item ∈ l, item.HoldsState key state) ↔
      ∃ item ∈ l.map SnapshotItem.unstamped, item.HoldsState key state := by
    intro l
    simp only [List.mem_map, exists_exists_and_eq_and, SnapshotItem.holdsState_unstamped]
  have hperm : (∃ item ∈ items.map SnapshotItem.unstamped, item.HoldsState key state) ↔
      ∃ item ∈ (peer.collectedItems now options).map SnapshotItem.unstamped,
        item.HoldsState key state := by
    simp only [h.perm.mem_iff]
  rw [hunstamped, hperm, ← hunstamped, ← FifoCache.mem_entries_iff, collectedItems_eq hfull,
    exportedStates_eq_of_full hfull peer hnow]
  constructor
  · rintro ⟨item, hmem, record, rfl, hkey, hstate⟩
    simp only [List.mem_append, List.mem_map, reduceCtorEq, and_false, exists_false, or_self,
      false_or, SnapshotItem.targetState.injEq, exists_eq_right] at hmem
    obtain ⟨target, htarget, rfl⟩ := hmem
    obtain rfl : target.1 = key := hkey
    obtain rfl : target.2 = state := hstate
    exact htarget
  · intro hmem
    refine ⟨_, List.mem_append_right _ (List.mem_map.mpr ⟨_, List.mem_map.mpr ⟨_, hmem, rfl⟩, rfl⟩),
      ?_⟩
    exact ⟨_, rfl, rfl, rfl⟩

theorem length_blocks_le (hfull : options.Full) (kind : BlockTargetKind) :
    (items.filterMap (SnapshotItem.blockOf? kind)).length ≤ (peer.getAllEntries kind).length := by
  have hblocks : ∀ l : List SnapshotItem, l.filterMap (SnapshotItem.blockOf? kind) =
      (l.map SnapshotItem.unstamped).filterMap (SnapshotItem.blockOf? kind) := by
    intro l
    rw [List.filterMap_map]
    apply List.filterMap_congr
    intro item _
    exact (SnapshotItem.blockOf?_unstamped kind item).symm
  have hcollected : (peer.collectedItems now options).filterMap (SnapshotItem.blockOf? kind) =
      peer.exportedBlocks kind now options := by
    rw [collectedItems_eq hfull]
    cases kind <;>
      simp [List.filterMap_map, Function.comp_def, SnapshotItem.blockOf?, SnapshotItem.ipBlock?,
        SnapshotItem.meshBlock?]
  rw [hblocks, (h.perm.filterMap _).length_eq, ← hblocks, hcollected]
  unfold Store.exportedBlocks
  rw [List.length_map]
  exact List.length_filter_le _ _

end IsSnapshot

end snapshot

/-! ## Section 5: The merge of a snapshot -/

/-- Where the record of a target was replaced, the new one is newer, unless a block met
    the record of a block. -/
def ReplacesInOrder (item : SnapshotItem) (s s' : Store) : Prop :=
  ∀ key last new, s.targetState.get key = some last → s'.targetState.get key = some new →
    new = last ∨ new.isNewerThan last = true ∨ item.sortKind ≠ 2 ∧ last.operation = .block

/-- The store has room for everything that the peer exports. -/
structure RoomForSnapshot (K : List BlocklistTargetKey) (s peer : Store) : Prop where
  enabled : s.enabled = true
  length_le : K.length ≤ targetStateMax
  keys : s.targetState.keys ⊆ K
  peerKeys : peer.targetState.keys ⊆ K
  blockKeys : ∀ kind, ∀ entry ∈ peer.getAllEntries kind,
    (entry.toRecord kind).targetKey kind ∈ K
  entries : ∀ kind,
    (s.table kind).total + (peer.getAllEntries kind).length ≤ s.config.maxEntries
  countable : (peer.getAllEntries .ip).length + (peer.getAllEntries .meshId).length +
    peer.targetState.entries.length ≤ u64Max

/-- No entry of the peer expires while the pages are exported, and no item on its
    way. -/
structure Undisturbed (peer : Store) (pages : List Page) : Prop where
  entries : ∀ kind, ∀ entry ∈ peer.getAllEntries kind, ∀ p ∈ pages, ∀ q ∈ pages,
    entry.isExpired kind p.exportedAt = entry.isExpired kind q.exportedAt
  items : ∀ page ∈ pages, ∀ item ∈ page.chunk.items, item.isExpired page.appliedAt = false

/-- The peer has a block whose time is not over. -/
def Store.Offers (peer : Store) (options : BlocklistSnapshotOptions) (pages : List Page)
    (kind : BlockTargetKind) (record : BlockRecord) : Prop :=
  ∃ page ∈ pages, record ∈ peer.exportedBlocks kind page.exportedAt options

theorem replacesInOrder_mergeItem {s : Store} (h : s.enabled = true) (now : Nat)
    (item : SnapshotItem) : ReplacesInOrder item s (s.mergeItem now item) := by
  intro key last new hlast hnew
  rcases item.block_or_state with ⟨kind, record, rfl⟩ | ⟨record, rfl⟩
  · rcases Store.mergeItem_block_cases h now kind record with ⟨_, _, hmerged⟩ | ⟨-, hsame⟩
    · rw [hmerged.changed.targetState] at hnew
      rcases FifoCache.get_of_get_insert hnew with ⟨rfl, rfl⟩ | hkept
      · right
        have hback := hmerged.notHeldBack
        unfold Store.holdsBack at hback
        rw [hlast, Option.any_some] at hback
        cases hop : last.operation with
        | block =>
          right
          exact ⟨SnapshotItem.sortKind_block_ne kind record, rfl⟩
        | unblock =>
          left
          rw [hop] at hback
          simpa using hback
      · exact Or.inl (Option.some.inj (hkept.symm.trans hlast))
    · rw [hsame] at hnew
      exact Or.inl (Option.some.inj (hnew.symm.trans hlast))
  · rcases Store.mergeItem_targetState_cases s now record with ⟨-, hnewer, heq⟩ | ⟨-, heq⟩
    · rw [heq] at hnew
      rcases FifoCache.get_of_get_insert hnew with ⟨rfl, rfl⟩ | hkept
      · exact Or.inr (Or.inl (hnewer last hlast))
      · exact Or.inl (Option.some.inj (hkept.symm.trans hlast))
    · rw [heq] at hnew
      exact Or.inl (Option.some.inj (hnew.symm.trans hlast))

section pages

variable {K : List BlocklistTargetKey} {s peer : Store} {options : BlocklistSnapshotOptions}
  {pages : List Page}

theorem AllPages.exists_page {cursor : BlocklistSnapshotCursor}
    (h : AllPages peer options cursor pages) : ∃ page, page ∈ pages := by
  cases h with
  | last _ _ => exact ⟨_, List.mem_singleton_self _⟩
  | next _ _ _ => exact ⟨_, List.mem_cons_self ..⟩

theorem snd_pagesRun (pages : List Page) :
    (pagesRun pages).map Prod.snd = pages.flatMap fun page => page.chunk.items := by
  unfold pagesRun
  rw [List.map_flatMap]
  simp [Function.comp_def]

/-- Together the pages hold the sorted items of the peer, as of any of the pages. -/
theorem isSnapshot_of_allPages (hfull : options.Full)
    (hpages : AllPages peer options ⟨none⟩ pages) (hroom : RoomForSnapshot K s peer)
    (hundisturbed : Undisturbed peer pages) {page : Page} (hpage : page ∈ pages) :
    IsSnapshot peer page.exportedAt options ((pagesRun pages).map Prod.snd) := by
  have hbase : ∀ page' ∈ pages,
      (peer.sortedItems page'.exportedAt options).map SnapshotItem.unstamped =
        (peer.sortedItems page.exportedAt options).map SnapshotItem.unstamped := by
    intro page' hpage'
    rw [unstamped_sortedItems, unstamped_sortedItems,
      unstamped_collectedItems page'.exportedAt_le page.exportedAt_le
        (fun kind entry hentry => hundisturbed.entries kind entry hentry page' hpage' page hpage)]
  have hlength : ((peer.sortedItems page.exportedAt options).map SnapshotItem.unstamped).length ≤
      u64Max := by
    have hblocks : ∀ kind, (peer.exportedBlocks kind page.exportedAt options).length ≤
        (peer.getAllEntries kind).length := by
      intro kind
      unfold Store.exportedBlocks
      rw [List.length_map]
      exact List.length_filter_le _ _
    have hcountable := hroom.countable
    have hip := hblocks .ip
    have hmesh := hblocks .meshId
    unfold Store.sortedItems
    rw [List.length_map, List.length_insertionSort, collectedItems_eq hfull,
      exportedStates_eq_of_full hfull peer page.exportedAt_le]
    simp only [List.length_append, List.length_map]
    omega
  unfold IsSnapshot
  rw [snd_pagesRun, hpages.items hbase hlength]
  rfl

theorem roomFor_of_snapshot (hfull : options.Full) {now : Nat} (hnow : now ≤ u64Max)
    {items : List SnapshotItem} (hitems : IsSnapshot peer now options items)
    (hroom : RoomForSnapshot K s peer) : RoomFor K s items := by
  refine ⟨hroom.enabled, hroom.length_le, hroom.keys, ?_, ?_⟩
  · intro item hitem
    rcases item.block_or_state with ⟨kind, record, rfl⟩ | ⟨record, rfl⟩
    · rw [SnapshotItem.targetKey_block]
      obtain ⟨entry, hentry, rfl⟩ := List.mem_map.mp ((hitems.block_mem hfull).mp hitem)
      exact hroom.blockKeys kind entry (List.mem_of_mem_filter hentry)
    · have hget := (hitems.exists_holdsState hfull hnow).mp ⟨_, hitem, record, rfl, rfl, rfl⟩
      exact hroom.peerKeys (FifoCache.contains_iff.mp (Option.isSome_of_eq_some hget))
  · intro kind
    have hle := hitems.length_blocks_le hfull kind
    have hentries := hroom.entries kind
    omega

/-- What the peer offers are the blocks of the pages. -/
theorem block_mem_iff_offers (hfull : options.Full) (hundisturbed : Undisturbed peer pages)
    {page : Page} (hpage : page ∈ pages) {items : List SnapshotItem}
    (hitems : IsSnapshot peer page.exportedAt options items) (kind : BlockTargetKind)
    (record : BlockRecord) :
    SnapshotItem.block kind record ∈ items ↔ peer.Offers options pages kind record := by
  rw [hitems.block_mem hfull]
  constructor
  · intro hmem
    exact ⟨page, hpage, hmem⟩
  · rintro ⟨page', hpage', hmem⟩
    rwa [exportedBlocks_congr (fun entry hentry =>
      hundisturbed.entries kind entry hentry page hpage page' hpage') options]

theorem isExpired_of_mem_pagesRun (hundisturbed : Undisturbed peer pages) :
    ∀ step ∈ pagesRun pages, step.2.isExpired step.1 = false := by
  intro step hstep
  obtain ⟨page, hpage, hmem⟩ := List.mem_flatMap.mp hstep
  obtain ⟨item, hitem, rfl⟩ := List.mem_map.mp hmem
  exact hundisturbed.items page hpage item hitem

end pages

/-- **Snapshots are merged in order.** Merging a chunk is merging its records one
    after the other, and none of them replaces the record of a target by one that is
    not newer, unless a block meets the record of a block.

    Once all pages of a peer are merged, a target whose recorded state was newer at
    the peer was last blocked or unblocked as there, if that was a block or is newer
    than the blocks of the target that the peer still has. No target loses its entry.
    A target that shares its entry with no other has one just if it had one or if the
    peer has a block for it that is not held back by what was recorded. -/
theorem snapshot_merged_in_order :
    (∀ (s : Store) (now : Nat) (chunk : BlocklistSnapshotChunk),
      (s.applyBlocklistSnapshot now chunk).2 =
        (if s.enabled then chunk.items.foldl (Store.mergeItem now) s else s) ∧
      (s.enabled = true → ∀ pre item post, chunk.items = pre ++ item :: post →
        ReplacesInOrder item (pre.foldl (Store.mergeItem now) s)
          ((pre ++ [item]).foldl (Store.mergeItem now) s))) ∧
    (∀ (K : List BlocklistTargetKey) (s peer : Store) (options : BlocklistSnapshotOptions)
      (pages : List Page), options.Full → AllPages peer options ⟨none⟩ pages →
      RoomForSnapshot K s peer → Undisturbed peer pages → ∀ key,
      (∀ state, peer.targetState.get key = some state →
        (∀ last, s.targetState.get key = some last → state.isNewerThan last = true) →
        (state.operation = .block ∨ ∀ record, peer.Offers options pages key.targetKind record →
          record.targetKey key.targetKind = key → state.isNewerThan record.candidate = true) →
        (s.applyPages pages).lastOperation key = some state.operation) ∧
      (s.hasEntry key = true → (s.applyPages pages).hasEntry key = true) ∧
      ((∀ kind record, peer.Offers options pages kind record →
          SharesEntry (record.targetKey kind) key → record.targetKey kind = key) →
        ((s.applyPages pages).hasEntry key = true ↔
          s.hasEntry key = true ∨ ∃ record, peer.Offers options pages key.targetKind record ∧
            record.targetKey key.targetKind = key ∧
            takesBlock key.targetKind (s.targetState.get key) record = true))) := by
  constructor
  · intro s now chunk
    constructor
    · split
      · next henabled => exact Store.applyBlocklistSnapshot_snd henabled now chunk
      · next hdisabled =>
        unfold Store.applyBlocklistSnapshot
        rw [if_neg hdisabled]
    · intro henabled pre item post _
      rw [List.foldl_append]
      exact replacesInOrder_mergeItem (Store.enabled_foldl_mergeItem henabled now pre) now item
  · intro K s peer options pages hfull hpages hroom hundisturbed key
    obtain ⟨page, hpage⟩ := hpages.exists_page
    have hitems := isSnapshot_of_allPages hfull hpages hroom hundisturbed hpage
    have hroomFor := roomFor_of_snapshot hfull page.exportedAt_le hitems hroom
    have hlive := isExpired_of_mem_pagesRun hundisturbed
    have hoffers := block_mem_iff_offers hfull hundisturbed hpage hitems
    rw [applyPages_eq hroom.enabled]
    refine ⟨?_, hasEntry_mergeRun_of_hasEntry hroomFor hlive, ?_⟩
    · intro state hstate hnewer hblocks
      obtain ⟨_, hmem, record, rfl, hkey, rfl⟩ :=
        (hitems.exists_holdsState hfull page.exportedAt_le).mpr hstate
      unfold Store.lastOperation
      rw [get_mergeRun hroomFor hlive]
      refine operation_foldl_stateStep hitems.pairwise_sortKind
        (hitems.statesApart hfull page.exportedAt_le) hmem hkey ?_ ?_
      · intro last hlast
        exact Or.inl (hnewer last hlast)
      · intro kind r hr hrkey
        obtain rfl : kind = key.targetKind := congrArg BlocklistTargetKey.targetKind hrkey
        rcases hblocks with hblock | hnewer'
        · exact Or.inr hblock
        · exact Or.inl (hnewer' r ((hoffers _ r).mp hr) hrkey)
    · intro hapart
      rw [hasEntry_mergeRun hroomFor hlive hitems.pairwise_sortKind
        (fun kind record hmem => hapart kind record ((hoffers kind record).mp hmem))]
      apply or_congr_right
      constructor
      · rintro ⟨_, hmem, record, rfl, hkey, htakes⟩
        exact ⟨record, (hoffers _ record).mp hmem, hkey, htakes⟩
      · rintro ⟨record, hoffer, hkey, htakes⟩
        exact ⟨_, (hoffers _ record).mpr hoffer, record, rfl, hkey, htakes⟩

/-! ### A peer that has unblocked a target -/

def meshTarget : BlocklistTargetKey := ⟨.meshId, globalScope, "m".toList⟩

def meshEvent (operation : BlocklistOperation) (timestamp : Nat) : BlocklistEvent where
  operation := operation
  targetKind := .meshId
  identifier := "m".toList
  siteScope := globalScope
  reason := none
  provenance := .default
  timestamp := timestamp
  sourceNode := none
  eventId := none
  ttlSecs := none
  version := none
  sourceSequence := none
  logicalTime := none

/-- A store that has missed the unblocking. -/
def behindStore : Store :=
  ((Store.new true ⟨10, true, 100⟩).applyBlocklistEvent 1 (meshEvent .block 1)).2

def aheadStore : Store :=
  ((Store.new true ⟨10, true, 100⟩).applyBlocklistEvent 2 (meshEvent .unblock 2)).2

def fullOptions : BlocklistSnapshotOptions := ⟨true, true, true, none, 500⟩

def onlyPage : Page where
  exportedAt := 3
  exportedAt_le := by decide
  appliedAt := 4
  chunk := aheadStore.exportBlocklistSnapshot 3 fullOptions ⟨none⟩

theorem allPages_onlyPage : AllPages aheadStore fullOptions ⟨none⟩ [onlyPage] :=
  .last rfl (by decide)

theorem roomForSnapshot_onlyPage : RoomForSnapshot [meshTarget] behindStore aheadStore where
  enabled := by decide
  length_le := by decide
  keys := by decide
  peerKeys := by decide
  blockKeys := by
    intro kind
    cases kind <;> decide
  entries := by
    intro kind
    cases kind <;> decide
  countable := by decide

theorem undisturbed_onlyPage : Undisturbed aheadStore [onlyPage] where
  entries := by
    intro kind
    cases kind <;> decide
  items := by decide

/-- The target was last unblocked, as at the peer, and keeps its entry. -/
theorem onlyPage_merged :
    (behindStore.applyPages [onlyPage]).lastOperation meshTarget = some .unblock ∧
    (behindStore.applyPages [onlyPage]).hasEntry meshTarget = true := by
  obtain ⟨hlast, hkept, -⟩ := snapshot_merged_in_order.2 [meshTarget] behindStore aheadStore
    fullOptions [onlyPage] ⟨rfl, rfl, rfl, rfl⟩ allPages_onlyPage roomForSnapshot_onlyPage
    undisturbed_onlyPage meshTarget
  refine ⟨hlast (meshEvent .unblock 2).lastApplied (by decide) ?_ (Or.inr ?_), hkept (by decide)⟩
  · intro last hlast
    obtain rfl : (meshEvent .block 1).lastApplied = last := Option.some.inj hlast
    decide
  · rintro record ⟨page, hpage, hmem⟩
    obtain rfl := List.mem_singleton.mp hpage
    have hnone : aheadStore.exportedBlocks meshTarget.targetKind onlyPage.exportedAt fullOptions =
        [] := by decide
    rw [hnone] at hmem
    cases hmem

/-- The peer's recorded state is newer and says that the target was unblocked. Once
    all pages are merged that was the last operation, and the target is blocked. -/
theorem kept_entry_of_unblocked :
    AllPages aheadStore fullOptions ⟨none⟩ [onlyPage] ∧
    aheadStore.targetState.get meshTarget = some (meshEvent .unblock 2).lastApplied ∧
    behindStore.targetState.get meshTarget = some (meshEvent .block 1).lastApplied ∧
    (meshEvent .unblock 2).lastApplied.isNewerThan (meshEvent .block 1).lastApplied = true ∧
    (behindStore.applyPages [onlyPage]).lastOperation meshTarget = some .unblock ∧
    (behindStore.applyPages [onlyPage]).answers 5 meshTarget = true :=
  ⟨allPages_onlyPage, by decide, by decide, by decide, by decide, by decide⟩

end Synvoid.BlockStore
