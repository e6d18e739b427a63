import Synvoid.BlockStore.Snapshot
import Synvoid.BlockStore.StaleEvents

/-! # Is the number of entries right?

    Beside its shards the store keeps the number of their entries, which every
    operation that adds or removes an entry adjusts. The number stays right and
    does not exceed the capacity, and an entry is lost only if it was unblocked,
    if it had expired, or if the store was full and no entry was accessed before
    it.

    The scan for the entry to be evicted starts from the greatest number there is
    and takes only entries below it. A full store in which all entries carry that
    number, which peers can send, evicts none and refuses new blocks; in every
    other store they succeed (`accounting_iff_admits`).
-/

namespace Synvoid.BlockStore

open Synvoid.Framework

/-! ## Section 1: Shards -/

namespace Shards

/-- The count is the number of entries, and within the capacity. -/
structure Accounted (s : Shards) (maxEntries : Nat) : Prop where
  total : s.total = s.entries.entries.length
  total_le : s.total ≤ maxEntries

/-- No entry was accessed before this one. -/
def LeastRecent (s : Shards) (entry : BlockEntry) : Prop :=
  ∀ k e, s.entries.lookup k = some e → entry.lastAccess ≤ e.lastAccess

/-- What is evicted has the lowest access time, below the greatest number. -/
theorem evictLru_eq_some {s s' : Shards} (h : s.evictLru = some s') :
    ∃ key entry, s.entries.lookup key = some entry ∧ s.LeastRecent entry ∧
      entry.lastAccess < u64Max ∧
      s' = { entries := s.entries.erase key, total := s.total - 1 } := by
  unfold evictLru at h
  split at h
  · next e hmin =>
    split at h
    · next hlt =>
      refine ⟨e.1, e.2, AList.mem_lookup_iff.mpr (List.argmin_mem hmin), ?_, hlt,
        (Option.some.inj h).symm⟩
      intro k e' hk
      have hmem : (⟨k, e'⟩ : Sigma fun _ : Str => BlockEntry) ∈ s.entries.entries :=
        AList.mem_lookup_iff.mp hk
      exact List.le_of_mem_argmin (f := fun e : Sigma fun _ : Str => BlockEntry => e.2.lastAccess)
        hmem hmin
    · cases h
  · cases h

/-- Nothing is evicted just if no entry is below the greatest number. -/
theorem evictLru_isSome_iff (s : Shards) :
    s.evictLru.isSome = true ↔ ∃ key entry, s.entries.lookup key = some entry ∧
      entry.lastAccess < u64Max := by
  constructor
  · intro h
    obtain ⟨s', hs'⟩ := Option.isSome_iff_exists.mp h
    obtain ⟨key, entry, hlookup, -, hlt, -⟩ := evictLru_eq_some hs'
    exact ⟨key, entry, hlookup, hlt⟩
  · rintro ⟨key, entry, hlookup, hlt⟩
    have hmem : (⟨key, entry⟩ : Sigma fun _ : Str => BlockEntry) ∈ s.entries.entries :=
      AList.mem_lookup_iff.mp hlookup
    unfold evictLru
    split
    · next e hmin =>
      have hle : e.2.lastAccess ≤ entry.lastAccess :=
        List.le_of_mem_argmin (f := fun e : Sigma fun _ : Str => BlockEntry => e.2.lastAccess)
          hmem hmin
      rw [if_pos (by omega)]
      rfl
    · next hnone =>
      rw [List.argmin_eq_none] at hnone
      rw [hnone] at hmem
      cases hmem

/-- The three ways in which an entry is put in: under a key that is there, as a new one,
    or in the place of an evicted one. -/
theorem store_cases {s s' : Shards} {maxEntries : Nat} {key : Str} {entry : BlockEntry}
    (h : s.store maxEntries key entry = some s') :
    ((s.entries.lookup key).isSome = true ∧
      s' = { entries := s.entries.insert key entry, total := s.total }) ∨
    (s.entries.lookup key = none ∧ s.total < maxEntries ∧
      s' = { entries := s.entries.insert key entry, total := s.total + 1 }) ∨
    (s.entries.lookup key = none ∧ maxEntries ≤ s.total ∧
      ∃ k e, s.entries.lookup k = some e ∧ s.LeastRecent e ∧
        s' = { entries := (s.entries.erase k).insert key entry, total := s.total - 1 + 1 }) := by
  unfold store at h
  cases hlookup : s.entries.lookup key with
  | some old =>
    simp [hlookup] at h
    exact Or.inl ⟨rfl, h.symm⟩
  | none =>
    right
    by_cases hfull : maxEntries ≤ s.total
    · right
      refine ⟨rfl, hfull, ?_⟩
      cases hevict : s.evictLru with
      | none => simp [hlookup, hfull, hevict] at h
      | some room =>
        obtain ⟨k, e, hk, hleast, -, rfl⟩ := evictLru_eq_some hevict
        simp [hlookup, hfull, hevict] at h
        exact ⟨k, e, hk, hleast, h.symm⟩
    · left
      simp [hlookup, hfull] at h
      exact ⟨rfl, Nat.lt_of_not_le hfull, h.symm⟩

theorem store_isSome_iff (s : Shards) (maxEntries : Nat) (key : Str) (entry : BlockEntry) :
    (s.store maxEntries key entry).isSome = true ↔ s.hasRoom maxEntries key = true := by
  constructor
  · intro h
    obtain ⟨s', hs'⟩ := Option.isSome_iff_exists.mp h
    exact hasRoom_of_store hs'
  · intro h
    unfold hasRoom at h
    unfold store
    cases hlookup : s.entries.lookup key with
    | some old => simp
    | none =>
      by_cases hfull : maxEntries ≤ s.total
      · have hevict : s.evictLru.isSome = true := by
          simpa [hlookup, Nat.not_lt.mpr hfull] using h
        obtain ⟨room, hroom⟩ := Option.isSome_iff_exists.mp hevict
        simp [hfull, hroom]
      · simp [hfull]

/-- A lookup finds no entry, an expired one, which it removes, or one whose access it
    notes. -/
theorem lookupLive_cases (s : Shards) (kind : BlockTargetKind) (now : Nat) (key : Str) :
    (s.entries.lookup key = none ∧ s.lookupLive kind now key = (none, s)) ∨
    ∃ entry, s.entries.lookup key = some entry ∧
      (entry.isExpired kind now = true ∧ s.lookupLive kind now key = (none, (s.remove key).2) ∨
        entry.isExpired kind now = false ∧
        s.lookupLive kind now key = (some (entry.updateAccess now),
          { s with entries := s.entries.insert key (entry.updateAccess now) })) := by
  unfold lookupLive
  cases hlookup : s.entries.lookup key with
  | none => exact Or.inl ⟨rfl, rfl⟩
  | some entry =>
    refine Or.inr ⟨entry, rfl, ?_⟩
    cases hexpired : entry.isExpired kind now with
    | true => exact Or.inl ⟨rfl, by simp [hexpired]⟩
    | false => exact Or.inr ⟨rfl, by simp [hexpired]⟩

section accounted

variable {s s' : Shards} {maxEntries : Nat}

theorem Accounted.store (h : s.Accounted maxEntries) {key : Str} {entry : BlockEntry}
    (hstore : s.store maxEntries key entry = some s') : s'.Accounted maxEntries := by
  have htotal := h.total
  have hle := h.total_le
  rcases store_cases hstore with
    ⟨hsome, rfl⟩ | ⟨hnone, hlt, rfl⟩ | ⟨hnone, hfull, k, e, hk, -, rfl⟩
  · refine ⟨?_, hle⟩
    show s.total = _
    rw [Table.length_insert, if_pos hsome, htotal]
  · refine ⟨?_, hlt⟩
    show s.total + 1 = _
    rw [Table.length_insert, hnone, htotal]
    rfl
  -- the evicted entry has another key, so the new one adds what it took away
  · have herased := Table.length_erase (Option.isSome_of_eq_some hk)
    have hgone : (s.entries.erase k).lookup key = none := by
      rw [Table.lookup_erase_eq, hnone, ite_self]
    refine ⟨?_, ?_⟩
    · show s.total - 1 + 1 = _
      rw [Table.length_insert, hgone]
      show s.total - 1 + 1 = (s.entries.erase k).entries.length + 1
      omega
    · show s.total - 1 + 1 ≤ _
      omega

theorem Accounted.remove (h : s.Accounted maxEntries) (key : Str) :
    (s.remove key).2.Accounted maxEntries := by
  unfold Shards.remove
  split
  · next hsome =>
    have herased := Table.length_erase hsome
    have htotal := h.total
    have hle := h.total_le
    refine ⟨?_, ?_⟩
    · show s.total - 1 = (s.entries.erase key).entries.length
      omega
    · show s.total - 1 ≤ maxEntries
      omega
  · exact h

theorem Accounted.lookupLive (h : s.Accounted maxEntries) (kind : BlockTargetKind) (now : Nat)
    (key : Str) : (s.lookupLive kind now key).2.Accounted maxEntries := by
  rcases s.lookupLive_cases kind now key with
    ⟨-, heq⟩ | ⟨entry, hlookup, ⟨-, heq⟩ | ⟨-, heq⟩⟩
  · rw [heq]
    exact h
  · rw [heq]
    exact h.remove key
  · rw [heq]
    refine ⟨?_, h.total_le⟩
    show s.total = _
    rw [Table.length_insert, hlookup, h.total]
    rfl

/-- What a lookup loses has expired. -/
theorem isExpired_of_lookupLive {kind : BlockTargetKind} {now : Nat} {key k : Str}
    {entry : BlockEntry} (hbefore : s.entries.lookup k = some entry)
    (hafter : (s.lookupLive kind now key).2.entries.lookup k = none) :
    entry.isExpired kind now = true := by
  rcases s.lookupLive_cases kind now key with
    ⟨-, heq⟩ | ⟨old, hlookup, ⟨hexpired, heq⟩ | ⟨-, heq⟩⟩
  · rw [heq, hbefore] at hafter
    cases hafter
  · rw [heq, Shards.lookup_remove] at hafter
    split at hafter
    · next hk =>
      rw [hk, hlookup] at hbefore
      rwa [← Option.some.inj hbefore]
    · rw [hbefore] at hafter
      cases hafter
  · rw [heq] at hafter
    dsimp only at hafter
    rw [Table.lookup_insert_eq] at hafter
    split at hafter
    · cases hafter
    · rw [hbefore] at hafter
      cases hafter

/-- A lookup that finds nothing changes no entry. -/
theorem lookup_of_lookupLive_none {kind : BlockTargetKind} {now : Nat} {key k : Str}
    {entry : BlockEntry} (hnone : (s.lookupLive kind now key).1 = none)
    (hafter : (s.lookupLive kind now key).2.entries.lookup k = some entry) :
    s.entries.lookup k = some entry := by
  rcases s.lookupLive_cases kind now key with
    ⟨-, heq⟩ | ⟨old, hlookup, ⟨-, heq⟩ | ⟨-, heq⟩⟩
  · rwa [heq] at hafter
  · rw [heq, Shards.lookup_remove] at hafter
    split at hafter
    · cases hafter
    · exact hafter
  · rw [heq] at hnone
    cases hnone

/-- What is lost when an entry is put in was evicted: there was no room, and no entry was
    accessed before it. -/
theorem evicted_of_store {key k : Str} {entry new : BlockEntry}
    (hstore : s.store maxEntries key new = some s') (hbefore : s.entries.lookup k = some entry)
    (hafter : s'.entries.lookup k = none) :
    s.entries.lookup key = none ∧ maxEntries ≤ s.total ∧ s.LeastRecent entry := by
  rcases store_cases hstore with
    ⟨-, rfl⟩ | ⟨-, -, rfl⟩ | ⟨hnone, hfull, k', e, hk', hleast, rfl⟩
  · rw [Table.lookup_insert_eq] at hafter
    split at hafter
    · cases hafter
    · rw [hbefore] at hafter
      cases hafter
  · rw [Table.lookup_insert_eq] at hafter
    split at hafter
    · cases hafter
    · rw [hbefore] at hafter
      cases hafter
  · refine ⟨hnone, hfull, ?_⟩
    rw [Table.lookup_insert_eq, Table.lookup_erase_eq] at hafter
    split at hafter
    · cases hafter
    · split at hafter
      · next hk =>
        rw [hk, hk'] at hbefore
        rwa [← Option.some.inj hbefore]
      · rw [hbefore] at hafter
        cases hafter

end accounted

end Shards

/-! ## Section 2: Calls -/

/-- `block_ip`: as `block_ip_with_provenance`, but nothing is recorded for the target. -/
def Store.blockIp (s : Store) (now : Nat) (ip : IpAddr) (reason : Str) (banExpireSeconds : Nat)
    (siteScope : Str) : Bool × Store :=
  if s.enabled then
    match (s.table .ip).store s.config.maxEntries (entryKey .ip siteScope ip.display)
        (.new ip.display reason banExpireSeconds siteScope now .default) with
    | none => (false, s)
    | some table => (true, s.setTable .ip table)
  else (false, s)

inductive Call where
  | blockIp (ip : IpAddr) (reason : Str) (banExpireSeconds : Nat) (siteScope : Str)
  | blockIpWithProvenance (ip : IpAddr) (reason : Str) (banExpireSeconds : Nat) (siteScope : Str)
      (provenance : BlockProvenance)
  | unblockIp (ip : IpAddr) (siteScope : Str)
  | isBlocked (ip : IpAddr) (siteScope : Str)
  | applyBlocklistEvent (event : BlocklistEvent)
  | applyBlocklistSnapshot (chunk : BlocklistSnapshotChunk)

def Call.perform (s : Store) (now : Nat) : Call → Store
  | .blockIp ip reason ban siteScope => (s.blockIp now ip reason ban siteScope).2
  | .blockIpWithProvenance ip reason ban siteScope provenance =>
      (s.blockIpWithProvenance now ip reason ban siteScope provenance).2
  | .unblockIp ip siteScope => (s.unblockIp now ip siteScope).2
  | .isBlocked ip siteScope => (s.isBlocked now ip siteScope).2
  | .applyBlocklistEvent event => (s.applyBlocklistEvent now event).2
  | .applyBlocklistSnapshot chunk => (s.applyBlocklistSnapshot now chunk).2

/-- A call, or the merge of one record of a snapshot. -/
inductive Part where
  | call (call : Call)
  | record (item : SnapshotItem)

def Part.perform (s : Store) (now : Nat) : Part → Store
  | .call c => c.perform s now
  | .record item => s.mergeItem now item

/-- The records of a snapshot, each with the store that it is merged into. -/
def recordParts (now : Nat) (s : Store) : List SnapshotItem → List (Store × Part)
  | [] => []
  | item :: items => (s, .record item) :: recordParts now (s.mergeItem now item) items

/-- What a call consists of: a snapshot is merged record by record, any other call is one
    part. -/
def Call.parts (s : Store) (now : Nat) : Call → List (Store × Part)
  | .applyBlocklistSnapshot chunk => if s.enabled then recordParts now s chunk.items else []
  | call => [(s, .call call)]

/-- Stores that start empty; the order in which the tables are scanned can change between
    calls. -/
def calls : System Store (Nat × Call) where
  init s := ∃ enabled config, s = .new enabled config
  step s l s' := (l.2.perform s l.1).Reordered s'

/-! ## Section 3: Blocks that are tried and entries that are lost -/

/-- The part comes to put in a block, under this key of this kind. -/
def Part.attempt (s : Store) (now : Nat) : Part → Option (BlockTargetKind × Str)
  | .call (.blockIp ip _ _ siteScope) | .call (.blockIpWithProvenance ip _ _ siteScope _) =>
      if s.enabled then some (.ip, entryKey .ip siteScope ip.display) else none
  | .call (.applyBlocklistEvent event) =>
      if s.enabled ∧ event.operation = .block ∧ (s.noteEventId event).isSome ∧
          s.isStale event = false then
        (entryIdentifier event.targetKind event.identifier).map fun identifier =>
          (event.targetKind, entryKey event.targetKind event.siteScope identifier)
      else none
  | .record (.ip r) => recordAttempt .ip r
  | .record (.mesh r) => recordAttempt .meshId r
  | _ => none
where
  /-- A record that is valid, has not expired and is not held back. -/
  recordAttempt (kind : BlockTargetKind) (record : BlockRecord) : Option (BlockTargetKind × Str) :=
    if s.enabled ∧ record.isExpired now = false ∧
        Store.holdsBack (s.targetState.get (record.targetKey kind)) record = false then
      (Store.snapshotIdentifier kind record.identifier).map fun identifier =>
        (kind, entryKey kind record.siteScope identifier)
    else none

/-- What the part says of its block. -/
def Part.succeeds (s : Store) (now : Nat) : Part → Bool
  | .call (.blockIp ip reason ban siteScope) => (s.blockIp now ip reason ban siteScope).1
  | .call (.blockIpWithProvenance ip reason ban siteScope provenance) =>
      (s.blockIpWithProvenance now ip reason ban siteScope provenance).1
  | .call (.applyBlocklistEvent event) => (s.applyBlocklistEvent now event).1 == .applied
  | .record (.ip r) => (s.applySnapshotIpBlock r).1
  | .record (.mesh r) => (s.applySnapshotMeshBlock r).1
  | _ => true

/-- The key is there, the store is not full, or some entry is below the greatest number. -/
def Store.Admits (s : Store) (kind : BlockTargetKind) (key : Str) : Prop :=
  ((s.table kind).entries.lookup key).isSome = true ∨
  (s.table kind).total < s.config.maxEntries ∨
  ∃ k entry, (s.table kind).entries.lookup k = some entry ∧ entry.lastAccess < u64Max

/-- The part unblocks the target with this entry. -/
def Part.Unblocks (kind : BlockTargetKind) (k : Str) : Part → Prop
  | .call (.unblockIp ip siteScope) =>
      kind = .ip ∧
        (k = entryKey .ip siteScope ip.display ∨ k = entryKey .ip globalScope ip.display)
  | .call (.applyBlocklistEvent event) =>
      event.operation = .unblock ∧ kind = event.targetKind ∧ ∃ identifier,
        entryIdentifier event.targetKind event.identifier = some identifier ∧
        (k = entryKey kind event.siteScope identifier ∨ k = entryKey kind globalScope identifier)
  | _ => False

/-- Why an entry is lost. -/
inductive Lost (s : Store) (now : Nat) (part : Part) (kind : BlockTargetKind) (k : Str)
    (entry : BlockEntry) : Prop where
  | unblocked (h : part.Unblocks kind k)
  | expired {ip : IpAddr} {siteScope : Str} (h : part = .call (.isBlocked ip siteScope))
      (hexpired : entry.isExpired kind now = true)
  | evicted {key : Str} (h : part.attempt s now = some (kind, key))
      (hnew : (s.table kind).entries.lookup key = none)
      (hfull : s.config.maxEntries ≤ (s.table kind).total)
      (hleast : (s.table kind).LeastRecent entry)

/-- What a part does to the tables. -/
inductive PartChange (s : Store) (now : Nat) (part : Part) (s' : Store) : Prop where
  | same (htables : ∀ kind, s'.table kind = s.table kind)
  | put {kind : BlockTargetKind} {key : Str} {entry : BlockEntry}
      (h : part.attempt s now = some (kind, key))
      (hstore : (s.table kind).store s.config.maxEntries key entry = some (s'.table kind))
      (hothers : ∀ kind', kind' ≠ kind → s'.table kind' = s.table kind')
  | removed {kind : BlockTargetKind} {siteScope identifier : Str}
      (h : ∀ k, k = entryKey kind siteScope identifier ∨ k = entryKey kind globalScope identifier →
        part.Unblocks kind k)
      (htable : s'.table kind = (Store.removeScoped kind (s.table kind) siteScope identifier).2)
      (hothers : ∀ kind', kind' ≠ kind → s'.table kind' = s.table kind')
  | looked {ip : IpAddr} {siteScope key key' : Str}
      (h : part = .call (.isBlocked ip siteScope))
      (htable : s'.table .ip = ((s.table .ip).lookupLive .ip now key).2 ∨
        ((s.table .ip).lookupLive .ip now key).1 = none ∧
        s'.table .ip = (((s.table .ip).lookupLive .ip now key).2.lookupLive .ip now key').2)
      (hothers : ∀ kind', kind' ≠ .ip → s'.table kind' = s.table kind')

def Store.Accounted (s : Store) : Prop :=
  ∀ kind, (s.table kind).Accounted s.config.maxEntries

theorem accounted_removeScoped {t : Shards} {maxEntries : Nat} (h : t.Accounted maxEntries)
    (kind : BlockTargetKind) (siteScope identifier : Str) :
    (Store.removeScoped kind t siteScope identifier).2.Accounted maxEntries := by
  rw [Store.removeScoped_snd]
  split
  · exact (h.remove _).remove _
  · exact h.remove _

/-- **Step.** The count stays right. -/
theorem PartChange.accounted {s s' : Store} {now : Nat} {part : Part}
    (h : PartChange s now part s') (hconfig : s'.config = s.config) (hs : s.Accounted) :
    s'.Accounted := by
  -- a table that was left alone and the one that was changed
  have hkinds : ∀ kind, (s'.table kind).Accounted s.config.maxEntries →
      (∀ kind', kind' ≠ kind → s'.table kind' = s.table kind') → s'.Accounted := by
    intro kind hkind hothers kind'
    rw [hconfig]
    by_cases heq : kind' = kind
    · rw [heq]
      exact hkind
    · rw [hothers kind' heq]
      exact hs kind'
  cases h with
  | same htables =>
    intro kind
    rw [htables, hconfig]
    exact hs kind
  | put _ hstore hothers => exact hkinds _ ((hs _).store hstore) hothers
  | removed _ htable hothers =>
    refine hkinds _ ?_ hothers
    rw [htable]
    exact accounted_removeScoped (hs _) _ _ _
  | looked _ htable hothers =>
    refine hkinds .ip ?_ hothers
    rcases htable with htable | ⟨-, htable⟩
    · rw [htable]
      exact (hs .ip).lookupLive .ip now _
    · rw [htable]
      exact ((hs .ip).lookupLive .ip now _).lookupLive .ip now _

/-- **Step.** An entry is lost for a reason. -/
theorem PartChange.lost {s s' : Store} {now : Nat} {part : Part} (h : PartChange s now part s')
    {kind : BlockTargetKind} {k : Str} {entry : BlockEntry}
    (hbefore : (s.table kind).entries.lookup k = some entry)
    (hafter : (s'.table kind).entries.lookup k = none) : Lost s now part kind k entry := by
  -- a table that is not changed loses nothing
  have hsame : s'.table kind ≠ s.table kind := by
    intro heq
    rw [heq, hbefore] at hafter
    cases hafter
  cases h with
  | same htables => exact absurd (htables kind) hsame
  | @put kind' key new hattempt hstore hothers =>
    obtain rfl : kind = kind' := not_not.mp fun hne => hsame (hothers kind hne)
    obtain ⟨hnew, hfull, hleast⟩ := Shards.evicted_of_store hstore hbefore hafter
    exact .evicted hattempt hnew hfull hleast
  | @removed kind' siteScope identifier hunblocks htable hothers =>
    obtain rfl : kind = kind' := not_not.mp fun hne => hsame (hothers kind hne)
    rw [htable, Store.lookup_removeScoped] at hafter
    split at hafter
    · next hk => exact .unblocked (hunblocks k hk)
    · rw [hbefore] at hafter
      cases hafter
  | @looked ip siteScope key key' hpart htable hothers =>
    obtain rfl : kind = .ip := not_not.mp fun hne => hsame (hothers kind hne)
    rcases htable with htable | ⟨hfirst, htable⟩
    · rw [htable] at hafter
      exact .expired hpart (Shards.isExpired_of_lookupLive hbefore hafter)
    · rw [htable] at hafter
      -- lost at the first lookup or left alone by it
      cases hbetween : ((s.table .ip).lookupLive .ip now key).2.entries.lookup k with
      | none => exact .expired hpart (Shards.isExpired_of_lookupLive hbefore hbetween)
      | some entry' =>
        rw [Shards.lookup_of_lookupLive_none hfirst hbetween] at hbefore
        obtain rfl := Option.some.inj hbefore
        exact .expired hpart (Shards.isExpired_of_lookupLive hbetween hafter)

/-! ## Section 4: Every part -/

theorem hasRoom_iff_admits (s : Store) (kind : BlockTargetKind) (key : Str) :
    (s.table kind).hasRoom s.config.maxEntries key = true ↔ s.Admits kind key := by
  unfold Shards.hasRoom Store.Admits
  rw [Bool.or_eq_true, Bool.or_eq_true, decide_eq_true_eq, or_assoc, Shards.evictLru_isSome_iff]

/-- What a part does, and when its block succeeds. -/
structure Explained (s : Store) (now : Nat) (part : Part) : Prop where
  change : PartChange s now part (part.perform s now)
  config : (part.perform s now).config = s.config
  succeeds_iff : ∀ kind key, part.attempt s now = some (kind, key) →
    (part.succeeds s now = true ↔ s.Admits kind key)

section parts

variable {s : Store} {now : Nat} {part : Part}

/-- A part that comes to no block and leaves the store as it is. -/
theorem explained_of_same (hno : part.attempt s now = none) (hsame : part.perform s now = s) :
    Explained s now part where
  change := .same fun kind => by rw [hsame]
  config := by rw [hsame]
  succeeds_iff := by
    intro kind key h
    rw [hno] at h
    cases h

/-- A part whose block goes into the table of its kind, or is refused there. -/
theorem explained_of_store {kind : BlockTargetKind} {key : Str} (entry : BlockEntry)
    (hattempt : part.attempt s now = some (kind, key))
    (hcases : (∃ table, (s.table kind).store s.config.maxEntries key entry = some table ∧
        part.succeeds s now = true ∧ (part.perform s now).table kind = table ∧
        (∀ kind', kind' ≠ kind → (part.perform s now).table kind' = s.table kind') ∧
        (part.perform s now).config = s.config) ∨
      ((s.table kind).store s.config.maxEntries key entry = none ∧
        part.succeeds s now = false ∧
        (∀ kind', (part.perform s now).table kind' = s.table kind') ∧
        (part.perform s now).config = s.config)) :
    Explained s now part := by
  have hroom := Shards.store_isSome_iff (s.table kind) s.config.maxEntries key entry
  rw [hasRoom_iff_admits] at hroom
  rcases hcases with ⟨table, hstore, hsucceeds, rfl, hothers, hconfig⟩ |
    ⟨hstore, hfails, htables, hconfig⟩
  · refine ⟨.put hattempt hstore hothers, hconfig, ?_⟩
    intro kind' key' h
    obtain ⟨rfl, rfl⟩ := Prod.mk.inj (Option.some.inj (hattempt.symm.trans h))
    rw [hstore] at hroom
    rw [hsucceeds]
    exact iff_of_true rfl (hroom.mp rfl)
  · refine ⟨.same htables, hconfig, ?_⟩
    intro kind' key' h
    obtain ⟨rfl, rfl⟩ := Prod.mk.inj (Option.some.inj (hattempt.symm.trans h))
    rw [hstore] at hroom
    rw [hfails]
    exact iff_of_false Bool.false_ne_true fun hadmits => Bool.false_ne_true (hroom.mpr hadmits)

variable (s now)

theorem explained_blockIp (ip : IpAddr) (reason : Str) (ban : Nat) (siteScope : Str) :
    Explained s now (.call (.blockIp ip reason ban siteScope)) := by
  by_cases henabled : s.enabled = true
  · refine explained_of_store (.new ip.display reason ban siteScope now .default)
      (if_pos henabled) ?_
    show (∃ table, _ = some table ∧ (s.blockIp now ip reason ban siteScope).1 = true ∧
        (s.blockIp now ip reason ban siteScope).2.table .ip = table ∧
        (∀ kind', kind' ≠ .ip →
          (s.blockIp now ip reason ban siteScope).2.table kind' = s.table kind') ∧
        (s.blockIp now ip reason ban siteScope).2.config = s.config) ∨
      (_ = none ∧ (s.blockIp now ip reason ban siteScope).1 = false ∧
        (∀ kind', (s.blockIp now ip reason ban siteScope).2.table kind' = s.table kind') ∧
        (s.blockIp now ip reason ban siteScope).2.config = s.config)
    unfold Store.blockIp
    rw [if_pos henabled]
    cases hstore : (s.table .ip).store s.config.maxEntries (entryKey .ip siteScope ip.display)
        (.new ip.display reason ban siteScope now .default) with
    | none => exact Or.inr ⟨rfl, rfl, fun _ => rfl, rfl⟩
    | some table =>
      have hchanged := Store.changed_setTable s .ip table
      exact Or.inl ⟨table, rfl, rfl, hchanged.table, hchanged.others, hchanged.config⟩
  · refine explained_of_same (if_neg henabled) ?_
    show (s.blockIp now ip reason ban siteScope).2 = s
    unfold Store.blockIp
    rw [if_neg henabled]

theorem explained_blockIpWithProvenance (ip : IpAddr) (reason : Str) (ban : Nat) (siteScope : Str)
    (provenance : BlockProvenance) :
    Explained s now (.call (.blockIpWithProvenance ip reason ban siteScope provenance)) := by
  by_cases henabled : s.enabled = true
  · refine explained_of_store (.new ip.display reason ban siteScope now provenance)
      (if_pos henabled) ?_
    rcases Store.blockTarget_cases henabled now ip.display reason ban siteScope provenance with
      ⟨table, hstore, hblocked, hchanged⟩ | ⟨hstore, hrefused⟩
    · exact Or.inl ⟨table, hstore, hblocked, hchanged.table, hchanged.others, hchanged.config⟩
    · have hsame : (Part.call (.blockIpWithProvenance ip reason ban siteScope provenance)).perform
          s now = s := congrArg Prod.snd hrefused
      refine Or.inr ⟨hstore, congrArg Prod.fst hrefused, fun _ => ?_, ?_⟩ <;> rw [hsame]
  · refine explained_of_same (if_neg henabled) ?_
    show (Store.blockTarget .ip s now ip.display reason ban siteScope provenance).2 = s
    unfold Store.blockTarget
    rw [if_neg henabled]

theorem explained_unblockIp (ip : IpAddr) (siteScope : Str) :
    Explained s now (.call (.unblockIp ip siteScope)) := by
  by_cases henabled : s.enabled = true
  · have hchanged := @Store.unblockTarget_changed .ip s henabled now ip.display siteScope
    refine ⟨.removed ?_ hchanged.table hchanged.others, hchanged.config, ?_⟩
    · intro k hk
      exact ⟨rfl, hk⟩
    · intro kind key h
      cases h
  · refine explained_of_same rfl ?_
    show (Store.unblockTarget .ip s now ip.display siteScope).2 = s
    unfold Store.unblockTarget
    rw [if_neg henabled]

theorem explained_isBlocked (ip : IpAddr) (siteScope : Str) :
    Explained s now (.call (.isBlocked ip siteScope)) := by
  by_cases henabled : s.enabled = true
  · have hchanged := fun table => Store.changed_setTable s .ip table
    have hresult : ∃ table, (Part.call (.isBlocked ip siteScope)).perform s now =
        s.setTable .ip table ∧
        (table = ((s.table .ip).lookupLive .ip now (entryKey .ip siteScope ip.display)).2 ∨
          ((s.table .ip).lookupLive .ip now (entryKey .ip siteScope ip.display)).1 = none ∧
          table =
            (((s.table .ip).lookupLive .ip now (entryKey .ip siteScope ip.display)).2.lookupLive
            .ip now (entryKey .ip globalScope ip.display)).2) := by
      show ∃ table, (Store.isTargetBlocked .ip s now ip.display siteScope).2 =
        s.setTable .ip table ∧ _
      unfold Store.isTargetBlocked
      rw [if_pos henabled]
      rcases (s.table .ip).lookupLive .ip now (entryKey .ip siteScope ip.display) with
        ⟨_ | entry, table⟩
      · by_cases hscope : siteScope ≠ globalScope
        · simp only [if_pos hscope]
          exact ⟨_, rfl, Or.inr ⟨trivial, rfl⟩⟩
        · simp only [if_neg hscope]
          exact ⟨_, rfl, Or.inl rfl⟩
      · exact ⟨_, rfl, Or.inl rfl⟩
    obtain ⟨table, hperform, htable⟩ := hresult
    have htables := hchanged table
    rw [← hperform] at htables
    rw [← htables.table] at htable
    refine ⟨.looked rfl htable htables.others, htables.config, ?_⟩
    intro kind key h
    cases h
  · refine explained_of_same rfl ?_
    show (Store.isTargetBlocked .ip s now ip.display siteScope).2 = s
    unfold Store.isTargetBlocked
    rw [if_neg henabled]

theorem noteEventId_isSome {event : BlocklistEvent}
    (h : ∀ id, event.eventId = some id → s.seenEvents.contains id = false) :
    (s.noteEventId event).isSome = true := by
  rcases Store.noteEventId_cases s event with ⟨id, hid, hseen, -⟩ | ⟨-, hnote⟩
  · rw [h id hid] at hseen
    cases hseen
  · rw [hnote]
    rfl

theorem isStale_eq_false {event : BlocklistEvent}
    (h : ∀ last, s.targetState.get event.targetKey = some last →
      event.lastApplied.isNewerThan last = true) : s.isStale event = false := by
  rcases Store.isStale_cases s event with ⟨last, hlast, holder, -⟩ | ⟨-, hstale⟩
  · rw [h last hlast] at holder
    cases holder
  · exact hstale

/-- An event that blocks and is not refused for another reason comes to its block. -/
theorem attempt_event {event : BlocklistEvent} {identifier : Str} (henabled : s.enabled = true)
    (hop : event.operation = .block)
    (hid : entryIdentifier event.targetKind event.identifier = some identifier)
    (hfresh : (s.noteEventId event).isSome = true) (hstale : s.isStale event = false) :
    (Part.call (.applyBlocklistEvent event)).attempt s now =
      some (event.targetKind, entryKey event.targetKind event.siteScope identifier) := by
  refine (if_pos ⟨henabled, hop, hfresh, hstale⟩).trans ?_
  rw [hid]
  rfl

theorem event_of_attempt {event : BlocklistEvent} {kind : BlockTargetKind} {key : Str}
    (h : (Part.call (.applyBlocklistEvent event)).attempt s now = some (kind, key)) :
    ∃ identifier, entryIdentifier event.targetKind event.identifier = some identifier ∧
      event.operation = .block ∧ kind = event.targetKind ∧
      key = entryKey event.targetKind event.siteScope identifier := by
  obtain ⟨hcond, hmap⟩ := Option.ite_none_right_eq_some.mp h
  obtain ⟨identifier, hid, heq⟩ := Option.map_eq_some_iff.mp hmap
  obtain ⟨rfl, rfl⟩ := Prod.mk.inj heq
  exact ⟨identifier, hid, hcond.2.1, rfl, rfl⟩

theorem eventTable_of_refused {event : BlocklistEvent} {kind : BlockTargetKind} {key : Str}
    (h : (Part.call (.applyBlocklistEvent event)).attempt s now = some (kind, key))
    (hwhy : s.Refuses now event) {identifier : Str}
    (hid : entryIdentifier event.targetKind event.identifier = some identifier) :
    s.eventTable now event identifier = none := by
  obtain ⟨⟨henabled, -, hfresh, hstale⟩, -⟩ := Option.ite_none_right_eq_some.mp h
  cases hwhy with
  | disabled hdisabled =>
    rw [henabled] at hdisabled
    cases hdisabled
  | invalid hinvalid =>
    rw [hid] at hinvalid
    cases hinvalid
  | duplicate heventId hseen =>
    rcases Store.noteEventId_cases s event with ⟨-, -, -, hnote⟩ | ⟨hunseen, -⟩
    · rw [hnote] at hfresh
      cases hfresh
    · rw [hunseen _ heventId] at hseen
      cases hseen
  | stale hlast holder =>
    rcases Store.isStale_cases s event with ⟨-, -, -, htrue⟩ | ⟨hnewer, -⟩
    · rw [htrue] at hstale
      cases hstale
    · rw [hnewer _ hlast] at holder
      cases holder
  | full hid' hfull =>
    obtain rfl := Option.some.inj (hid.symm.trans hid')
    exact hfull

theorem explained_applyBlocklistEvent (event : BlocklistEvent) :
    Explained s now (.call (.applyBlocklistEvent event)) := by
  rcases Store.applyBlocklistEvent_cases s now event with
    ⟨hresult, identifier, happlied⟩ | ⟨hresult, hrefused⟩
  · cases hop : event.operation with
    | block =>
      have hattempt := attempt_event s now happlied.enabled hop happlied.entryIdentifier_eq
        (noteEventId_isSome s happlied.fresh) (isStale_eq_false s happlied.newer)
      have htable := happlied.table
      unfold Store.eventTable at htable
      simp only [hop] at htable
      refine explained_of_store _ hattempt (Or.inl ⟨_, htable, ?_, rfl, happlied.others,
        happlied.config⟩)
      exact beq_iff_eq.mpr hresult
    | unblock =>
      have htable := happlied.table
      unfold Store.eventTable at htable
      simp only [hop, Option.some.injEq] at htable
      refine ⟨.removed ?_ htable.symm happlied.others, happlied.config, ?_⟩
      · intro k hk
        exact ⟨hop, rfl, identifier, happlied.entryIdentifier_eq, hk⟩
      · intro kind key h
        have hno : ¬ (s.enabled = true ∧ event.operation = .block ∧
            (s.noteEventId event).isSome = true ∧ s.isStale event = false) := by
          rw [hop]
          rintro ⟨-, hblock, -⟩
          cases hblock
        rw [show (Part.call (.applyBlocklistEvent event)).attempt s now = none from if_neg hno] at h
        cases h
  · have htables : ∀ kind, (s.applyBlocklistEvent now event).2.table kind = s.table kind := by
      intro kind
      rcases hrefused.unchanged with heq | heq
      · rw [heq]
      · rw [heq, Store.table_noted]
    have hconfig : (s.applyBlocklistEvent now event).2.config = s.config := by
      rcases hrefused.unchanged with heq | heq
      · rw [heq]
      · rw [heq, Store.config_noted]
    refine ⟨.same htables, hconfig, ?_⟩
    intro kind key h
    obtain ⟨identifier, hid, hop, rfl, rfl⟩ := event_of_attempt s now h
    -- what comes to its block can only be refused for want of room
    have hfull := eventTable_of_refused s now h hrefused.why hid
    unfold Store.eventTable at hfull
    simp only [hop] at hfull
    have hroom := Shards.store_isSome_iff (s.table event.targetKind) s.config.maxEntries
      (entryKey event.targetKind event.siteScope identifier)
      (.new identifier (event.reason.getD "mesh_event".toList) (event.ttlSecs.getD 3600)
        event.siteScope now event.provenance)
    rw [hasRoom_iff_admits, hfull] at hroom
    refine iff_of_false ?_ fun hadmits => Bool.false_ne_true (hroom.mpr hadmits)
    exact fun hsucceeds => hresult (beq_iff_eq.mp hsucceeds)

/-- What the operation of a record says of its block. -/
theorem succeeds_record (henabled : s.enabled = true) {kind : BlockTargetKind}
    {record : BlockRecord} {identifier : Str}
    (hvalid : Store.snapshotIdentifier kind record.identifier = some identifier) :
    (Part.record (.block kind record)).succeeds s now =
      ((s.table kind).store s.config.maxEntries (entryKey kind record.siteScope identifier)
        record.entry).isSome := by
  have hblock : (Store.applySnapshotBlock kind s record identifier).1 =
      ((s.table kind).store s.config.maxEntries (entryKey kind record.siteScope identifier)
        record.entry).isSome := by
    unfold Store.applySnapshotBlock
    rw [if_pos henabled]
    cases (s.table kind).store s.config.maxEntries (entryKey kind record.siteScope identifier)
      record.entry <;> rfl
  cases kind with
  | ip => exact (congrArg Prod.fst (Store.applySnapshotIpBlock_eq hvalid s)).trans hblock
  | meshId => exact (congrArg Prod.fst (Store.applySnapshotMeshBlock_eq hvalid s)).trans hblock

theorem attempt_record (kind : BlockTargetKind) (record : BlockRecord) :
    (Part.record (.block kind record)).attempt s now =
      Part.attempt.recordAttempt s now kind record := by
  cases kind <;> rfl

theorem explained_block (henabled : s.enabled = true) (kind : BlockTargetKind)
    (record : BlockRecord) : Explained s now (.record (.block kind record)) := by
  have hattempt := attempt_record s now kind record
  rcases Store.mergeItem_block_cases henabled now kind record with
    ⟨identifier, table, hmerged⟩ | ⟨hwhy, hsame⟩
  · have hcomes : Part.attempt.recordAttempt s now kind record =
        some (kind, entryKey kind record.siteScope identifier) := by
      refine (if_pos ⟨henabled, hmerged.live, hmerged.notHeldBack⟩).trans ?_
      rw [hmerged.valid]
      rfl
    have hsucceeds := succeeds_record s now henabled hmerged.valid
    rw [hmerged.store] at hsucceeds
    exact explained_of_store record.entry (hattempt.trans hcomes) (Or.inl ⟨table, hmerged.store,
      hsucceeds, hmerged.changed.table, hmerged.changed.others, hmerged.changed.config⟩)
  · cases hcomes : Part.attempt.recordAttempt s now kind record with
    | none => exact explained_of_same (hattempt.trans hcomes) hsame
    | some target =>
      obtain ⟨⟨-, hlive, hback⟩, hmap⟩ := Option.ite_none_right_eq_some.mp hcomes
      obtain ⟨identifier, hvalid, rfl⟩ := Option.map_eq_some_iff.mp hmap
      have hfull : (s.table kind).store s.config.maxEntries
          (entryKey kind record.siteScope identifier) record.entry = none := by
        cases hwhy with
        | invalid h =>
          rw [hvalid] at h
          cases h
        | expired h =>
          rw [hlive] at h
          cases h
        | heldBack h =>
          rw [hback] at h
          cases h
        | full hvalid' h =>
          obtain rfl := Option.some.inj (hvalid.symm.trans hvalid')
          exact h
      have hfails := succeeds_record s now henabled hvalid
      rw [hfull] at hfails
      have hperform : (Part.record (.block kind record)).perform s now = s := hsame
      refine explained_of_store record.entry (hattempt.trans hcomes)
        (Or.inr ⟨hfull, hfails, fun _ => ?_, ?_⟩) <;> rw [hperform]

theorem explained_record (henabled : s.enabled = true) (item : SnapshotItem) :
    Explained s now (.record item) := by
  cases item with
  | ip record => exact explained_block s now henabled .ip record
  | mesh record => exact explained_block s now henabled .meshId record
  | targetState record =>
    have hno : ∀ kind key, ¬ (Part.record (.targetState record)).attempt s now = some (kind, key) :=
      fun _ _ h => nomatch h
    rcases Store.mergeItem_targetState_cases s now record with ⟨-, -, heq⟩ | ⟨-, heq⟩
    · refine ⟨.same fun kind => ?_, ?_, fun kind key h => absurd h (hno kind key)⟩
      · show (s.mergeItem now (.targetState record)).table kind = s.table kind
        rw [heq, Store.table_recordTargetState]
      · show (s.mergeItem now (.targetState record)).config = s.config
        rw [heq]
        rfl
    · exact explained_of_same rfl heq

end parts

/-! ## Section 5: Runs -/

theorem mem_recordParts {now : Nat} {s : Store} (h : s.enabled = true) {items : List SnapshotItem}
    {part : Store × Part} (hpart : part ∈ recordParts now s items) :
    Explained part.1 now part.2 := by
  induction items generalizing s with
  | nil => cases hpart
  | cons item items ih =>
    rcases List.mem_cons.mp hpart with rfl | hrest
    · exact explained_record s now h item
    · exact ih (Store.enabled_mergeItem h now item) hrest

theorem explained_of_mem_parts {s : Store} {now : Nat} {call : Call} {part : Store × Part}
    (hpart : part ∈ call.parts s now) : Explained part.1 now part.2 := by
  cases call with
  | blockIp ip reason ban siteScope =>
    obtain rfl := List.mem_singleton.mp hpart
    exact explained_blockIp ..
  | blockIpWithProvenance ip reason ban siteScope provenance =>
    obtain rfl := List.mem_singleton.mp hpart
    exact explained_blockIpWithProvenance ..
  | unblockIp ip siteScope =>
    obtain rfl := List.mem_singleton.mp hpart
    exact explained_unblockIp ..
  | isBlocked ip siteScope =>
    obtain rfl := List.mem_singleton.mp hpart
    exact explained_isBlocked ..
  | applyBlocklistEvent event =>
    obtain rfl := List.mem_singleton.mp hpart
    exact explained_applyBlocklistEvent ..
  | applyBlocklistSnapshot chunk =>
    by_cases henabled : s.enabled = true
    · have hparts : (Call.applyBlocklistSnapshot chunk).parts s now =
          recordParts now s chunk.items := if_pos henabled
      rw [hparts] at hpart
      exact mem_recordParts henabled hpart
    · have hparts : (Call.applyBlocklistSnapshot chunk).parts s now = [] := if_neg henabled
      rw [hparts] at hpart
      cases hpart

/-- The records of a snapshot are merged into stores whose count is right, and so is the
    count of the last one. -/
theorem accounted_recordParts {now : Nat} {s : Store} (henabled : s.enabled = true)
    (hs : s.Accounted) (items : List SnapshotItem) :
    (∀ part ∈ recordParts now s items, part.1.Accounted) ∧
      (items.foldl (Store.mergeItem now) s).Accounted := by
  induction items generalizing s with
  | nil => exact ⟨List.forall_mem_nil _, hs⟩
  | cons item items ih =>
    have hexplained := explained_record s now henabled item
    have hnext := hexplained.change.accounted hexplained.config hs
    obtain ⟨hparts, hlast⟩ := ih (Store.enabled_mergeItem henabled now item) hnext
    exact ⟨List.forall_mem_cons.mpr ⟨hs, hparts⟩, hlast⟩

/-- **Step.** The count is right within a call and behind it. -/
theorem accounted_call {s : Store} (hs : s.Accounted) (now : Nat) (call : Call) :
    (∀ part ∈ call.parts s now, part.1.Accounted) ∧ (call.perform s now).Accounted := by
  have hone : call.parts s now = [(s, .call call)] →
      (∀ part ∈ call.parts s now, part.1.Accounted) ∧ (call.perform s now).Accounted := by
    intro hparts
    have hmem : (s, Part.call call) ∈ call.parts s now := by
      rw [hparts]
      exact List.mem_singleton_self _
    have hexplained := explained_of_mem_parts hmem
    refine ⟨?_, hexplained.change.accounted hexplained.config hs⟩
    rw [hparts, List.forall_mem_singleton]
    exact hs
  cases call with
  | applyBlocklistSnapshot chunk =>
    by_cases henabled : s.enabled = true
    · have hrecords := @accounted_recordParts now s henabled hs chunk.items
      rw [← Store.applyBlocklistSnapshot_snd henabled] at hrecords
      have hparts : (Call.applyBlocklistSnapshot chunk).parts s now =
          recordParts now s chunk.items := if_pos henabled
      rw [hparts]
      exact hrecords
    · have hparts : (Call.applyBlocklistSnapshot chunk).parts s now = [] := if_neg henabled
      have hsame : (Call.applyBlocklistSnapshot chunk).perform s now = s := by
        show (s.applyBlocklistSnapshot now chunk).2 = s
        unfold Store.applyBlocklistSnapshot
        rw [if_neg henabled]
      rw [hparts, hsame]
      exact ⟨List.forall_mem_nil _, hs⟩
  | blockIp | blockIpWithProvenance | unblockIp | isBlocked | applyBlocklistEvent => exact hone rfl

theorem accounted_new (enabled : Bool) (config : DenyListLimitsConfig) :
    (Store.new enabled config).Accounted := by
  intro kind
  cases kind <;> exact ⟨rfl, Nat.zero_le _⟩

theorem accounted_of_reordered {s s' : Store} (h : s.Reordered s') (hs : s.Accounted) :
    s'.Accounted := by
  intro kind
  refine ⟨?_, ?_⟩
  · rw [h.total, (hs kind).total]
    exact (h.entries kind).length_eq
  · rw [h.total, h.config]
    exact (hs kind).total_le

/-- What is to hold of a run: the count is right between calls and within them, a block of an
    enabled store succeeds, and an entry is lost for a reason. -/
structure KeepsAccount (tr : List (Store × (Nat × Call))) (s : Store) : Prop where
  states : ∀ t ∈ tr.map Prod.fst ++ [s], t.Accounted
  within : ∀ step ∈ tr, ∀ part ∈ step.2.2.parts step.1 step.2.1, part.1.Accounted
  succeeds : ∀ step ∈ tr, ∀ part ∈ step.2.2.parts step.1 step.2.1, ∀ kind key,
    part.2.attempt part.1 step.2.1 = some (kind, key) → part.2.succeeds part.1 step.2.1 = true
  losses : ∀ step ∈ tr, ∀ part ∈ step.2.2.parts step.1 step.2.1, ∀ kind k entry,
    (part.1.table kind).entries.lookup k = some entry →
    ((part.2.perform part.1 step.2.1).table kind).entries.lookup k = none →
    Lost part.1 step.2.1 part.2 kind k entry

/-- **Accounting.** In every run the count is right, within the capacity, and entries are
    lost only by being unblocked, by having expired, or as the least recently accessed one of
    a full store. All blocks succeed just if each of them meets its key, room, or an entry
    that was accessed below the greatest number. -/
theorem accounting_iff_admits {tr : List (Store × (Nat × Call))} {s : Store}
    (hexec : calls.Exec tr s) :
    KeepsAccount tr s ↔ ∀ step ∈ tr, ∀ part ∈ step.2.2.parts step.1 step.2.1, ∀ kind key,
      part.2.attempt part.1 step.2.1 = some (kind, key) → part.1.Admits kind key := by
  have hstates : (∀ step ∈ tr, step.1.Accounted) ∧ s.Accounted := by
    refine System.Exec.history (fun tr s => (∀ step ∈ tr, step.1.Accounted) ∧ s.Accounted) ?_ ?_
      hexec
    · rintro s ⟨enabled, config, rfl⟩
      exact ⟨List.forall_mem_nil _, accounted_new enabled config⟩
    · intro tr s l s' ⟨hbefore, hs⟩ hstep
      exact ⟨forall_mem_snoc.mpr ⟨hbefore, hs⟩,
        accounted_of_reordered hstep (accounted_call hs l.1 l.2).2⟩
  constructor
  · intro h step hstep part hpart kind key hattempt
    exact ((explained_of_mem_parts hpart).succeeds_iff kind key hattempt).mp
      (h.succeeds step hstep part hpart kind key hattempt)
  · intro h
    refine ⟨?_, ?_, ?_, ?_⟩
    · rw [List.forall_mem_append, List.forall_mem_singleton, List.forall_mem_map]
      exact hstates
    · intro step hstep
      exact (accounted_call (hstates.1 step hstep) step.2.1 step.2.2).1
    · intro step hstep part hpart kind key hattempt
      exact ((explained_of_mem_parts hpart).succeeds_iff kind key hattempt).mpr
        (h step hstep part hpart kind key hattempt)
    · intro step hstep part hpart kind k entry hbefore hafter
      exact (explained_of_mem_parts hpart).change.lost hbefore hafter

/-! ### A store for one entry -/

theorem length_octets (a b c d : UInt8) : ([a, b, c, d] : Bytes).length = 4 := rfl

/-- The address 10.0.0.d. -/
def smallAddress (d : UInt8) : IpAddr := .v4 ⟨[10, 0, 0, d], length_octets 10 0 0 d⟩

def smallStore : Store := .new true ⟨1, true, 0⟩

def callTrace (s : Store) : List (Nat × Call) → List (Store × (Nat × Call))
  | [] => []
  | l :: ls => (s, l) :: callTrace (l.2.perform s l.1) ls

def callEnd (s : Store) (ls : List (Nat × Call)) : Store :=
  ls.foldl (fun s l => l.2.perform s l.1) s

theorem exec_callTrace {tr : List (Store × (Nat × Call))} {s : Store} (h : calls.Exec tr s)
    (ls : List (Nat × Call)) : calls.Exec (tr ++ callTrace s ls) (callEnd s ls) := by
  induction ls generalizing tr s with
  | nil => simpa [callTrace, callEnd] using h
  | cons l ls ih =>
    have hstep : calls.step s l (l.2.perform s l.1) := Store.Reordered.refl _
    have hnext := ih (h.snoc hstep)
    rwa [List.append_assoc] at hnext

theorem exec_smallStore (ls : List (Nat × Call)) :
    calls.Exec (callTrace smallStore ls) (callEnd smallStore ls) := by
  have hinit : calls.Exec [] smallStore := .nil ⟨true, ⟨1, true, 0⟩, rfl⟩
  exact exec_callTrace hinit ls

/-- Two addresses are blocked; the second takes the place of the first. -/
def replacing : List (Nat × Call) :=
  [(1, .blockIp (smallAddress 1) [] 0 globalScope), (2, .blockIp (smallAddress 2) [] 0 globalScope)]

theorem replacing_keepsAccount :
    KeepsAccount (callTrace smallStore replacing) (callEnd smallStore replacing) := by
  refine (accounting_iff_admits (exec_smallStore replacing)).mpr ?_
  show ∀ step ∈ [_, _], _
  rw [List.forall_mem_cons, List.forall_mem_singleton]
  constructor
  · intro part hpart kind key hattempt
    obtain rfl := List.mem_singleton.mp hpart
    obtain ⟨rfl, rfl⟩ := Prod.mk.inj (Option.some.inj hattempt)
    exact Or.inr (Or.inl (by decide))
  · intro part hpart kind key hattempt
    obtain rfl := List.mem_singleton.mp hpart
    obtain ⟨rfl, rfl⟩ := Prod.mk.inj (Option.some.inj hattempt)
    refine Or.inr (Or.inr ⟨entryKey .ip globalScope "10.0.0.1".toList,
      .new "10.0.0.1".toList [] 0 globalScope 1 .default, ?_, by decide⟩)
    decide

/-- A block of a peer with the greatest timestamp there is. -/
def farBlock : BlocklistSnapshotChunk where
  ipBlocks := [⟨.ip, "10.0.0.1".toList, [], u64Max, 0, globalScope, 0, u64Max, .default⟩]
  meshBlocks := []
  targetStateRecords := []
  nextPageToken := none
  hasMore := false
  snapshotComplete := true
  truncatedReason := none

def farRun : List (Nat × Call) :=
  [(1, .applyBlocklistSnapshot farBlock), (2, .blockIp (smallAddress 2) [] 0 globalScope)]

/-- The store is enabled and full, and refuses a new block. -/
theorem farRun_refuses_block :
    calls.Exec (callTrace smallStore farRun) (callEnd smallStore farRun) ∧
    (callEnd smallStore (farRun.take 1)).enabled = true ∧
    ((callEnd smallStore (farRun.take 1)).blockIp 2 (smallAddress 2) [] 0 globalScope).1 = false :=
  ⟨exec_smallStore farRun, by decide, by decide⟩

end Synvoid.BlockStore
