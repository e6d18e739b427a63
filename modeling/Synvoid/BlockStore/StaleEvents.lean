import Synvoid.BlockStore.Store
import Synvoid.Framework.Transition

/-! # Do stale events stay stale?

    Events and direct operations are mixed in any order. An event that is not
    newer than one that was applied to its target before should not change
    whether the target is blocked.

    What keeps it out is the recorded state of the target. A direct operation
    replaces it by a record that has only a timestamp, and an event of another
    source or with other fields by one that does not compare with the old one in
    the same way; then an old event can be newer than the new record. And an
    event looks for the record under the text of its identifier, while a direct
    operation leaves it under the address as it is written.

    If every record that is replaced is covered by the new one, and addresses are
    spelled as they are written, stale events stay stale
    (`stale_events_stay_stale`).
-/

namespace Synvoid.BlockStore

open Synvoid.Framework

/-! ## Section 1: Runs -/

inductive Operation where
  | event (event : BlocklistEvent)
  | blockIp (ip : IpAddr) (reason : Str) (banExpireSeconds : Nat) (siteScope : Str)
      (provenance : BlockProvenance)
  | unblockIp (ip : IpAddr) (siteScope : Str)
  | blockMeshId (meshId reason : Str) (banExpireSeconds : Nat) (siteScope : Str)
      (provenance : BlockProvenance)
  | unblockMeshId (meshId siteScope : Str)

namespace Store

def perform (s : Store) (now : Nat) : Operation → Store
  | .event event => (s.applyBlocklistEvent now event).2
  | .blockIp ip reason ban siteScope provenance =>
      (s.blockIpWithProvenance now ip reason ban siteScope provenance).2
  | .unblockIp ip siteScope => (s.unblockIp now ip siteScope).2
  | .blockMeshId meshId reason ban siteScope provenance =>
      (s.blockMeshIdWithProvenance now meshId reason ban siteScope provenance).2
  | .unblockMeshId meshId siteScope => (s.unblockMeshId now meshId siteScope).2

/-- The store with its tables in another order of iteration. -/
structure Reordered (s s' : Store) : Prop where
  entries : ∀ kind, (s.table kind).entries.Reordered (s'.table kind).entries
  total : ∀ kind, (s'.table kind).total = (s.table kind).total
  targetState : s'.targetState = s.targetState
  seenEvents : s'.seenEvents = s.seenEvents
  eventLog : s'.eventLog = s.eventLog
  config : s'.config = s.config
  enabled : s'.enabled = s.enabled

end Store

/-- The targets that an operation can leave a record for. -/
def Operation.targetKeys : Operation → List BlocklistTargetKey
  | .event e => e.recordKeys
  | .blockIp ip _ _ siteScope _ | .unblockIp ip siteScope => [⟨.ip, siteScope, ip.display⟩]
  | .blockMeshId meshId _ _ siteScope _ | .unblockMeshId meshId siteScope =>
      [⟨.meshId, siteScope, meshId⟩]

/-- Stores that keep the state of targets, all of them from the list `K`. -/
def operations (K : List BlocklistTargetKey) : System Store (Nat × Operation) where
  init s := s.enabled = true ∧ s.config.targetStatePersist = true ∧ s.targetState.keys ⊆ K
  step s l s' := (∀ key ∈ l.2.targetKeys, key ∈ K) ∧ (s.perform l.1 l.2).Reordered s'

/-- A run on at most `targetStateMax` targets, with a clock that does not go back. -/
structure Run (K : List BlocklistTargetKey) (tr : List (Store × (Nat × Operation)))
    (s : Store) : Prop where
  exec : (operations K).Exec tr s
  targets : K.length ≤ targetStateMax
  clock : (tr.map fun step => step.2.1).Pairwise (· ≤ ·)

/-- The events are for the same mesh id or for the same address, however it is
    spelled, in the same scope. -/
def SameTarget (a b : BlocklistEvent) : Prop :=
  a.targetKind = b.targetKind ∧ a.siteScope = b.siteScope ∧
    entryIdentifier a.targetKind a.identifier = entryIdentifier b.targetKind b.identifier

/-- No event changes whether its target is blocked if one was applied to the
    target before that it is not newer than. -/
def StaysStale (tr : List (Store × (Nat × Operation))) : Prop :=
  ∀ (pre post : List (Store × (Nat × Operation))) (s₁ s₂ : Store) (now₁ now₂ : Nat)
    (event₁ event₂ : BlocklistEvent), tr = pre ++ (s₂, now₂, .event event₂) :: post →
    (s₁, now₁, .event event₁) ∈ pre → (s₁.applyBlocklistEvent now₁ event₁).1 = .applied →
    SameTarget event₁ event₂ → event₂.lastApplied.isNewerThan event₁.lastApplied = false →
    ∀ now, (s₂.applyBlocklistEvent now₂ event₂).2.answers now event₂.targetKey =
      s₂.answers now event₂.targetKey

/-! ## Section 2: When a record is replaced -/

/-- The target whose record an operation replaces. -/
def Operation.recordKey : Operation → BlocklistTargetKey
  | .event e => e.targetKey
  | .blockIp ip _ _ siteScope _ | .unblockIp ip siteScope => ⟨.ip, siteScope, ip.display⟩
  | .blockMeshId meshId _ _ siteScope _ | .unblockMeshId meshId siteScope =>
      ⟨.meshId, siteScope, meshId⟩

/-- The record that an operation leaves. -/
def Operation.record (now : Nat) : Operation → LastAppliedBlocklistEvent
  | .event e => e.lastApplied
  | .blockIp _ _ _ _ provenance | .blockMeshId _ _ _ _ provenance =>
      Store.directRecord .block now none provenance
  | .unblockIp .. | .unblockMeshId .. => Store.directRecord .unblock now none .default

/-- An address is spelled as it is written. -/
def Operation.canonical : Operation → Bool
  | .event e => entryIdentifier e.targetKind e.identifier = some e.identifier
  | _ => true

namespace Store

/-- The store does what the operation asks: the id of an event is new, the event
    is newer than what is recorded, and there is room for a new entry. -/
def admits (s : Store) : Operation → Bool
  | .event e =>
      (e.eventId.all fun id => !s.seenEvents.contains id) && !s.isStale e &&
        (entryIdentifier e.targetKind e.identifier).any fun identifier =>
          e.operation == .unblock || (s.table e.targetKind).hasRoom s.config.maxEntries
            (entryKey e.targetKind e.siteScope identifier)
  | .blockIp ip _ _ siteScope _ =>
      s.shards.hasRoom s.config.maxEntries (entryKey .ip siteScope ip.display)
  | .blockMeshId meshId _ _ siteScope _ =>
      s.meshShards.hasRoom s.config.maxEntries (entryKey .meshId siteScope meshId)
  | .unblockIp .. | .unblockMeshId .. => true

/-- If the store does what the operation asks, the address is spelled as it is
    written and the new record covers the one that it replaces. -/
def keepsOrder (s : Store) (now : Nat) (op : Operation) : Bool :=
  !s.admits op ||
    (op.canonical && (s.targetState.get op.recordKey).all fun last => (op.record now).covers last)

theorem admits_of_applied {s : Store} {now : Nat} {e : BlocklistEvent} {identifier : Str}
    {s' : Store} (h : Applied s now e identifier s') : s.admits (.event e) = true := by
  have hfresh : (e.eventId.all fun id => !s.seenEvents.contains id) = true := by
    cases hid : e.eventId with
    | none => rfl
    | some id => simpa using h.fresh id hid
  have hnewer : s.isStale e = false := by
    rcases isStale_cases s e with ⟨last, hlast, hold, -⟩ | ⟨-, hstale⟩
    · rw [h.newer last hlast] at hold
      cases hold
    · exact hstale
  have hroom : (e.operation == .unblock || (s.table e.targetKind).hasRoom s.config.maxEntries
      (entryKey e.targetKind e.siteScope identifier)) = true := by
    have htable := h.table
    unfold eventTable at htable
    cases hop : e.operation with
    | unblock => rfl
    | block =>
      simp only [hop] at htable
      rw [Shards.hasRoom_of_store htable]
      rfl
  rw [admits, hfresh, hnewer, h.entryIdentifier_eq]
  exact hroom

/-- What an operation can do to the recorded states: nothing, or replace one
    record. -/
inductive RecordStep (s : Store) (now : Nat) (op : Operation) (s' : Store) : Prop where
  | unchanged (h : s'.targetState = s.targetState)
  | replaced (hadmits : s.admits op = true)
      (h : op.canonical = true → ∀ k, s'.targetState.get k =
        if k = op.recordKey then some (op.record now) else s.targetState.get k)

/-- The part of a store that its targets are kept in. -/
structure Keeps (K : List BlocklistTargetKey) (s : Store) : Prop where
  enabled : s.enabled = true
  persist : s.config.targetStatePersist = true
  keys : s.targetState.keys ⊆ K

/-- A direct operation records itself. -/
theorem Changed.recordStep {K : List BlocklistTargetKey} (hK : K.length ≤ targetStateMax)
    {s s' : Store} (h : Keeps K s) {now : Nat} {op : Operation} (hadmits : s.admits op = true)
    (hkey : op.recordKey ∈ K) {kind : BlockTargetKind} {table : Shards}
    (hchanged : Changed s kind table (s.directStates op.recordKey (op.record now)) s') :
    RecordStep s now op s' ∧ Keeps K s' := by
  have hstates : s'.targetState = s.targetState.insert op.recordKey (op.record now) := by
    rw [hchanged.targetState, directStates, if_pos h.persist]
  refine ⟨.replaced hadmits fun _ k => ?_, ?_⟩
  · rw [hstates]
    exact FifoCache.get_insert_of_room (FifoCache.room_of_subset h.keys hK hkey) _ k
  · exact
      { enabled := hchanged.enabled.trans h.enabled
        persist := by rw [hchanged.config, h.persist]
        keys := by
          rw [hstates]
          exact FifoCache.keys_insert_subset_of h.keys hkey _ }

section applied

variable {K : List BlocklistTargetKey} {s s' : Store} {now : Nat} {e : BlocklistEvent}
  {identifier : Str}

/-- Under the canonical spelling the event replaces the record that its direct
    operation has left. -/
theorem Applied.get_targetState (hK : K.length ≤ targetStateMax) (h : Keeps K s)
    (happlied : Applied s now e identifier s')
    (htargets : ∀ key ∈ (Operation.event e).targetKeys, key ∈ K)
    (hcanonical : (Operation.event e).canonical = true) (k : BlocklistTargetKey) :
    s'.targetState.get k =
      if k = e.targetKey then some e.lastApplied else s.targetState.get k := by
  have heq : entryIdentifier e.targetKind e.identifier = some e.identifier :=
    of_decide_eq_true hcanonical
  obtain rfl : identifier = e.identifier :=
    Option.some.inj (happlied.entryIdentifier_eq.symm.trans heq)
  have hkey : e.targetKey ∈ K := htargets _ happlied.mem_recordKeys
  have hdirect := keys_directStates_subset h.keys hkey (eventDirectRecord now e)
  rw [happlied.targetState]
  show ((s.directStates e.targetKey (eventDirectRecord now e)).insert e.targetKey
    e.lastApplied).get k = _
  rw [FifoCache.get_insert_of_room (FifoCache.room_of_subset hdirect hK hkey)]
  by_cases hk : k = e.targetKey
  · rw [if_pos hk, if_pos hk]
  · rw [if_neg hk, if_neg hk, directStates, if_pos h.persist,
      FifoCache.get_insert_of_room (FifoCache.room_of_subset h.keys hK hkey), if_neg hk]

theorem Applied.recordStep (hK : K.length ≤ targetStateMax) (h : Keeps K s)
    (happlied : Applied s now e identifier s')
    (htargets : ∀ key ∈ (Operation.event e).targetKeys, key ∈ K) :
    RecordStep s now (.event e) s' ∧ Keeps K s' := by
  refine ⟨.replaced (admits_of_applied happlied)
    (happlied.get_targetState hK h htargets), ?_⟩
  have hdirect := keys_directStates_subset h.keys (htargets _ happlied.mem_recordKeys)
    (eventDirectRecord now e)
  exact
    { enabled := happlied.enabled_eq.trans h.enabled
      persist := by rw [happlied.config, h.persist]
      keys := by
        rw [happlied.targetState]
        exact FifoCache.keys_insert_subset_of hdirect (htargets _ (List.mem_cons_self ..)) _ }

end applied

theorem Refused.recordStep {K : List BlocklistTargetKey} {s s' : Store} (h : Keeps K s) {now : Nat}
    {e : BlocklistEvent} (hrefused : Refused s now e s') :
    RecordStep s now (.event e) s' ∧ Keeps K s' := by
  rcases hrefused.unchanged with rfl | rfl
  · exact ⟨.unchanged rfl, h⟩
  · refine ⟨.unchanged (targetState_noted s e), ?_⟩
    exact
      { enabled := by rw [enabled_noted, h.enabled]
        persist := by rw [config_noted, h.persist]
        keys := by
          rw [targetState_noted]
          exact h.keys }

/-- Blocking a target of either kind. -/
theorem blockTarget_recordStep {K : List BlocklistTargetKey} (hK : K.length ≤ targetStateMax)
    {s : Store} (h : Keeps K s) {now : Nat} {op : Operation} {kind : BlockTargetKind}
    {identifier reason : Str} {ban : Nat} {siteScope : Str} {provenance : BlockProvenance}
    (hrecordKey : op.recordKey = ⟨kind, siteScope, identifier⟩)
    (hrecord : op.record now = directRecord .block now none provenance)
    (hadmits : s.admits op =
      (s.table kind).hasRoom s.config.maxEntries (entryKey kind siteScope identifier))
    (hkey : op.recordKey ∈ K) :
    RecordStep s now op (blockTarget kind s now identifier reason ban siteScope provenance).2 ∧
      Keeps K (blockTarget kind s now identifier reason ban siteScope provenance).2 := by
  rcases blockTarget_cases h.enabled now identifier reason ban siteScope provenance with
    ⟨table, hstore, -, hchanged⟩ | ⟨-, hrefused⟩
  · rw [← hrecordKey, ← hrecord] at hchanged
    exact hchanged.recordStep hK h (hadmits.trans (Shards.hasRoom_of_store hstore)) hkey
  · rw [hrefused]
    exact ⟨.unchanged rfl, h⟩

/-- **Step.** Every operation replaces at most one record, and only if the store
    admits it. -/
theorem perform_recordStep {K : List BlocklistTargetKey} (hK : K.length ≤ targetStateMax)
    {s : Store} (h : Keeps K s) (now : Nat) (op : Operation)
    (htargets : ∀ key ∈ op.targetKeys, key ∈ K) :
    RecordStep s now op (s.perform now op) ∧ Keeps K (s.perform now op) := by
  cases op with
  | event e =>
    rcases s.applyBlocklistEvent_cases now e with ⟨-, identifier, happlied⟩ | ⟨-, hrefused⟩
    · exact happlied.recordStep hK h htargets
    · exact hrefused.recordStep h
  | blockIp ip reason ban siteScope provenance =>
    exact blockTarget_recordStep hK h rfl rfl rfl (htargets _ (List.mem_singleton_self _))
  | unblockIp ip siteScope =>
    exact (unblockTarget_changed h.enabled now ip.display siteScope).recordStep hK h rfl
      (htargets _ (List.mem_singleton_self _))
  | blockMeshId meshId reason ban siteScope provenance =>
    exact blockTarget_recordStep hK h rfl rfl rfl (htargets _ (List.mem_singleton_self _))
  | unblockMeshId meshId siteScope =>
    exact (unblockTarget_changed h.enabled now meshId siteScope).recordStep hK h rfl
      (htargets _ (List.mem_singleton_self _))

/-! ## Section 3: Stale events -/

/-- What the record of the event's target keeps out, the event keeps out. -/
def Remembers (s : Store) (e : BlocklistEvent) : Prop :=
  ∃ last, s.targetState.get e.targetKey = some last ∧
    ∀ x : LastAppliedBlocklistEvent, x.isNewerThan last = true →
      x.isNewerThan e.lastApplied = true

/-- A record that is replaced by one that covers it is still remembered. -/
theorem Remembers.step {s s' : Store} {e : BlocklistEvent} (h : s.Remembers e) {now : Nat}
    {op : Operation} (hstep : RecordStep s now op s') (hkeeps : s.keepsOrder now op = true) :
    s'.Remembers e := by
  obtain ⟨last, hlast, hnewer⟩ := h
  cases hstep with
  | unchanged heq => exact ⟨last, heq ▸ hlast, hnewer⟩
  | replaced hadmits hget =>
    rw [keepsOrder, hadmits, Bool.not_true, Bool.false_or, Bool.and_eq_true] at hkeeps
    obtain ⟨hcanonical, hcovers⟩ := hkeeps
    by_cases hkey : e.targetKey = op.recordKey
    · rw [← hkey, hlast] at hcovers
      refine ⟨op.record now, by rw [hget hcanonical, if_pos hkey], fun x hx => ?_⟩
      exact hnewer x (LastAppliedBlocklistEvent.isNewerThan_of_covers hcovers hx)
    · exact ⟨last, by rw [hget hcanonical, if_neg hkey, hlast], hnewer⟩

/-- An event that is applied is remembered. -/
theorem Applied.remembers {K : List BlocklistTargetKey} (hK : K.length ≤ targetStateMax)
    {s s' : Store} (h : Keeps K s) {now : Nat} {e : BlocklistEvent} {identifier : Str}
    (happlied : Applied s now e identifier s')
    (htargets : ∀ key ∈ (Operation.event e).targetKeys, key ∈ K)
    (hcanonical : (Operation.event e).canonical = true) : s'.Remembers e := by
  refine ⟨e.lastApplied, ?_, fun x hx => hx⟩
  rw [happlied.get_targetState hK h htargets hcanonical, if_pos rfl]

theorem canonical_of_applied {s s' : Store} {now : Nat} {e : BlocklistEvent} {identifier : Str}
    (happlied : Applied s now e identifier s') (hkeeps : s.keepsOrder now (.event e) = true) :
    (Operation.event e).canonical = true := by
  rw [keepsOrder, admits_of_applied happlied, Bool.not_true, Bool.false_or,
    Bool.and_eq_true] at hkeeps
  exact hkeeps.1

/-- Every event that was applied in a run is spelled canonically and remembered. -/
def RemembersRun (tr : List (Store × (Nat × Operation))) (s : Store) : Prop :=
  ∀ s₁ now₁ e₁, (s₁, now₁, .event e₁) ∈ tr → (s₁.applyBlocklistEvent now₁ e₁).1 = .applied →
    (Operation.event e₁).canonical = true ∧ s.Remembers e₁

theorem Reordered.keeps {K : List BlocklistTargetKey} {s s' : Store} (hre : s.Reordered s')
    (h : Keeps K s) : Keeps K s' where
  enabled := hre.enabled.trans h.enabled
  persist := by rw [hre.config, h.persist]
  keys := by
    rw [hre.targetState]
    exact h.keys

theorem Reordered.remembers {s s' : Store} (hre : s.Reordered s') {e : BlocklistEvent}
    (h : s.Remembers e) : s'.Remembers e := by
  obtain ⟨last, hlast, hnewer⟩ := h
  exact ⟨last, by rw [hre.targetState, hlast], hnewer⟩

end Store

open Store

/-- **Run.** If every step keeps the order, all applied events are remembered. -/
theorem remembersRun_of_exec {K : List BlocklistTargetKey} (hK : K.length ≤ targetStateMax)
    {tr : List (Store × (Nat × Operation))} {s : Store} (h : (operations K).Exec tr s) :
    Keeps K s ∧
      ((∀ step ∈ tr, step.1.keepsOrder step.2.1 step.2.2 = true) → RemembersRun tr s) := by
  refine System.Exec.history
    (fun tr s => Keeps K s ∧
      ((∀ step ∈ tr, step.1.keepsOrder step.2.1 step.2.2 = true) → RemembersRun tr s))
    ?_ ?_ h
  · rintro s ⟨henabled, hpersist, hkeys⟩
    exact ⟨⟨henabled, hpersist, hkeys⟩, fun _ s₁ now₁ e₁ hmem => (by cases hmem)⟩
  · rintro tr s ⟨now, op⟩ s' ⟨hkeeps, ih⟩ ⟨htargets, hre⟩
    obtain ⟨hstep, hkeeps'⟩ := perform_recordStep hK hkeeps now op htargets
    refine ⟨hre.keeps hkeeps', fun hall => ?_⟩
    obtain ⟨hbefore, hlast⟩ := forall_mem_snoc.mp hall
    intro s₁ now₁ e₁ hmem happlied
    rcases List.mem_append.mp hmem with hearlier | hnow
    · obtain ⟨hcanonical, hremembers⟩ := ih hbefore s₁ now₁ e₁ hearlier happlied
      exact ⟨hcanonical, hre.remembers (hremembers.step hstep hlast)⟩
    · obtain ⟨rfl, rfl, rfl⟩ : s₁ = s ∧ now₁ = now ∧ Operation.event e₁ = op := by simpa using hnow
      rcases s₁.applyBlocklistEvent_cases now₁ e₁ with ⟨-, identifier, h₁⟩ | ⟨hnot, -⟩
      · have hcanonical := canonical_of_applied h₁ hlast
        exact ⟨hcanonical, hre.remembers (h₁.remembers hK hkeeps htargets hcanonical)⟩
      · exact absurd happlied hnot

/-- Under the canonical spelling the same target has one key. -/
theorem SameTarget.targetKey_eq {a b : BlocklistEvent} (h : SameTarget a b)
    (ha : (Operation.event a).canonical = true) (hb : (Operation.event b).canonical = true) :
    a.targetKey = b.targetKey := by
  obtain ⟨hkind, hscope, hidentifier⟩ := h
  have ha' : entryIdentifier a.targetKind a.identifier = some a.identifier := of_decide_eq_true ha
  have hb' : entryIdentifier b.targetKind b.identifier = some b.identifier := of_decide_eq_true hb
  have heq : a.identifier = b.identifier :=
    Option.some.inj (ha'.symm.trans (hidentifier.trans hb'))
  unfold BlocklistEvent.targetKey
  rw [hkind, hscope, heq]

/-- **Stale events stay stale** in every run each of whose steps keeps the order:
    what it records covers what it replaces, and its address is spelled as it is
    written. -/
theorem stale_events_stay_stale {K : List BlocklistTargetKey}
    {tr : List (Store × (Nat × Operation))} {s : Store} (hrun : Run K tr s)
    (hkeeps : ∀ step ∈ tr, step.1.keepsOrder step.2.1 step.2.2 = true) : StaysStale tr := by
  intro pre post s₁ s₂ now₁ now₂ e₁ e₂ htr hmem happlied hsame hold now
  obtain ⟨s₀, hinit, hsteps⟩ := hrun.exec
  subst htr
  have hbefore : (operations K).Exec pre s₂ := System.Exec.before ⟨s₀, hinit, hsteps⟩
  obtain ⟨hpre, hpost⟩ := List.forall_mem_append.mp hkeeps
  obtain ⟨hcanonical₁, last, hlast, hnewer⟩ :=
    (remembersRun_of_exec hrun.targets hbefore).2 hpre s₁ now₁ e₁ hmem happlied
  rcases s₂.applyBlocklistEvent_cases now₂ e₂ with ⟨-, identifier, h₂⟩ | ⟨-, hrefused⟩
  -- an event that is applied is newer than the record, and so than the earlier event
  · have hcanonical₂ := canonical_of_applied h₂ (hpost _ (List.mem_cons_self ..))
    have hkey := hsame.targetKey_eq hcanonical₁ hcanonical₂
    rw [hkey] at hlast
    rw [hnewer _ (h₂.newer last hlast)] at hold
    cases hold
  · exact hrefused.answers now _

/-! ### Two runs -/

/-- The steps of a list of operations, with no table reordered. -/
def traceOf (s : Store) : List (Nat × Operation) → List (Store × (Nat × Operation))
  | [] => []
  | l :: rest => (s, l) :: traceOf (s.perform l.1 l.2) rest

def runOf (s : Store) (l : List (Nat × Operation)) : Store :=
  l.foldl (fun s l => s.perform l.1 l.2) s

theorem Store.Reordered.refl (s : Store) : s.Reordered s where
  entries _ := Table.Reordered.refl _
  total _ := rfl
  targetState := rfl
  seenEvents := rfl
  eventLog := rfl
  config := rfl
  enabled := rfl

theorem exec_traceOf {K : List BlocklistTargetKey} {tr : List (Store × (Nat × Operation))}
    {s : Store} (h : (operations K).Exec tr s) (l : List (Nat × Operation))
    (hl : ∀ step ∈ l, ∀ key ∈ step.2.targetKeys, key ∈ K) :
    (operations K).Exec (tr ++ traceOf s l) (runOf s l) := by
  induction l generalizing tr s with
  | nil => simpa [traceOf, runOf] using h
  | cons step l ih =>
    rw [List.forall_mem_cons] at hl
    have hnext := ih (h.snoc ⟨hl.1, Store.Reordered.refl _⟩) hl.2
    rwa [List.append_assoc] at hnext

/-- An event that blocks the address 10.0.0.1 in the global scope. -/
def blockEvent (id : String) (version : Option Nat) (timestamp : Nat) : BlocklistEvent where
  operation := .block
  targetKind := .ip
  identifier := "10.0.0.1".toList
  siteScope := globalScope
  reason := none
  provenance := .default
  timestamp := timestamp
  sourceNode := none
  eventId := some id.toList
  ttlSecs := none
  version := version
  sourceSequence := none
  logicalTime := none

/-- An event blocks an address, it is unblocked by hand, and an event of a lower
    version or an earlier time comes. -/
def replayed (version version' : Option Nat) : List (Nat × Operation) :=
  [(100, .event (blockEvent "a" version 100)),
    (200, .unblockIp (.v4 ⟨[10, 0, 0, 1], rfl⟩) globalScope),
    (300, .event (blockEvent "b" version' 50))]

def replayKey : BlocklistTargetKey := ⟨.ip, globalScope, "10.0.0.1".toList⟩

def replayStore : Store := .new true ⟨10, true, 0⟩

theorem targetKeys_blockEvent (id : String) (version : Option Nat) (timestamp : Nat) :
    (Operation.event (blockEvent id version timestamp)).targetKeys = [replayKey, replayKey] := by
  have hid : entryIdentifier .ip "10.0.0.1".toList = some "10.0.0.1".toList := by decide
  show replayKey :: (entryIdentifier .ip "10.0.0.1".toList).toList.map _ = _
  rw [hid]
  rfl

theorem replayed_run (version version' : Option Nat) :
    Run [replayKey] (traceOf replayStore (replayed version version'))
      (runOf replayStore (replayed version version')) where
  exec := by
    have hinit : (operations [replayKey]).Exec [] replayStore :=
      .nil ⟨rfl, rfl, List.nil_subset _⟩
    refine exec_traceOf hinit (replayed version version') ?_
    have hunblock : (Operation.unblockIp (.v4 ⟨[10, 0, 0, 1], rfl⟩) globalScope).targetKeys =
      [replayKey] := by decide
    simp [replayed, targetKeys_blockEvent, hunblock]
  targets := by decide
  clock := by
    show [100, 200, 300].Pairwise (· ≤ ·)
    decide

/-- Without versions the old event stays out. -/
theorem replayed_unversioned_stays_stale :
    StaysStale (traceOf replayStore (replayed none none)) :=
  stale_events_stay_stale (replayed_run none none) (by decide)

/-- The direct operation has no version, so any version is newer. -/
theorem replayed_block_undoes_unblock :
    Run [replayKey] (traceOf replayStore (replayed (some 5) (some 3)))
      (runOf replayStore (replayed (some 5) (some 3))) ∧
    ¬ StaysStale (traceOf replayStore (replayed (some 5) (some 3))) := by
  refine ⟨replayed_run _ _, fun hstale => ?_⟩
  have hsame := hstale ((traceOf replayStore (replayed (some 5) (some 3))).take 2) []
    replayStore (runOf replayStore ((replayed (some 5) (some 3)).take 2)) 100 300
    (blockEvent "a" (some 5) 100) (blockEvent "b" (some 3) 50) rfl
    (List.mem_cons_self ..) (by decide) ⟨rfl, rfl, rfl⟩ (by decide) 300
  exact absurd hsame (by decide)

end Synvoid.BlockStore
