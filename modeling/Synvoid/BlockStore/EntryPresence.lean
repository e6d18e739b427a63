import Synvoid.BlockStore.Store
import Synvoid.Framework.Transition

/-! # Do entries agree with recorded states?

    The entries and the recorded states of the targets are kept apart, and an
    event changes both. An event that unblocks a target in a scope removes the
    entry of the global scope too, but records only its own target. So a global
    target has an entry just if it was blocked last and no event of another scope
    has unblocked its identifier since; any other target has one just if it was
    blocked last (`hasEntry_iff_lastOperation`).

    This is for targets that no other target of the run can be taken for: two
    spellings of an address have one entry, and so can a scope with a colon and
    one without.
-/

namespace Synvoid.BlockStore

open Synvoid.Framework

/-! ## Section 1: Runs of events -/

/-- What is reached from an empty store by events alone. -/
def eventRuns : System Store (Nat × BlocklistEvent) where
  init s := ∃ enabled config, s = .new enabled config
  step s l s' := s' = (s.applyBlocklistEvent l.1 l.2).2

/-- The events of a run that were applied. -/
def appliedEvents (tr : List (Store × (Nat × BlocklistEvent))) : List BlocklistEvent :=
  (tr.filter fun step => (step.1.applyBlocklistEvent step.2.1 step.2.2).1 = .applied).map
    fun step => step.2.2

/-- Applying the event forgets no record, all of them being of the list `K`, and
    evicts no entry. -/
structure NoEviction (K : List BlocklistTargetKey) (s : Store) (event : BlocklistEvent) :
    Prop where
  keys : ∀ key ∈ event.recordKeys, key ∈ K
  room : event.operation = .block → ∀ identifier,
    entryIdentifier event.targetKind event.identifier = some identifier →
    ((s.table event.targetKind).entries.lookup
      (entryKey event.targetKind event.siteScope identifier)).isSome = true ∨
    (s.table event.targetKind).total < s.config.maxEntries

/-- The key of the entry of a target. -/
def BlocklistTargetKey.entryKey (key : BlocklistTargetKey) : Option Str :=
  (entryIdentifier key.targetKind key.identifier).map
    (BlockStore.entryKey key.targetKind key.siteScope)

def Store.hasEntry (s : Store) (key : BlocklistTargetKey) : Bool :=
  key.entryKey.any fun k => ((s.table key.targetKind).entries.lookup k).isSome

/-- The targets have one entry. -/
def SharesEntry (a b : BlocklistTargetKey) : Prop :=
  a.targetKind = b.targetKind ∧ a.entryKey.isSome = true ∧ a.entryKey = b.entryKey

instance (a b : BlocklistTargetKey) : Decidable (SharesEntry a b) :=
  inferInstanceAs (Decidable (_ ∧ _ ∧ _))

/-- The global target of an event's identifier. -/
def BlocklistEvent.globalKey (event : BlocklistEvent) : BlocklistTargetKey :=
  { event.targetKey with siteScope := globalScope }

/-- An event of another target cannot be taken for one of `key`. -/
structure Apart (key : BlocklistTargetKey) (event : BlocklistEvent) : Prop where
  record : key ∈ event.recordKeys → event.targetKey = key
  entry : SharesEntry event.targetKey key → event.targetKey = key
  global : SharesEntry event.globalKey key → key.siteScope = globalScope

/-- The event unblocks the identifier of a global target in another scope. -/
structure UnblocksGlobal (event : BlocklistEvent) (key : BlocklistTargetKey) : Prop where
  operation : event.operation = .unblock
  global : key.siteScope = globalScope
  scope : event.siteScope ≠ globalScope
  kind : event.targetKind = key.targetKind
  identifier : entryIdentifier event.targetKind event.identifier =
    entryIdentifier key.targetKind key.identifier

/-- A global target was unblocked by an event of another scope since the last
    event of its own. -/
def UnblockedElsewhere (events : List BlocklistEvent) (key : BlocklistTargetKey) : Prop :=
  ∃ pre event post, events = pre ++ event :: post ∧ UnblocksGlobal event key ∧
    ∀ later ∈ post, later.targetKey ≠ key

theorem UnblocksGlobal.targetKey_ne {event : BlocklistEvent} {key : BlocklistTargetKey}
    (h : UnblocksGlobal event key) : event.targetKey ≠ key := by
  rintro rfl
  exact h.scope h.global

theorem unblockedElsewhere_snoc (events : List BlocklistEvent) (event : BlocklistEvent)
    (key : BlocklistTargetKey) :
    UnblockedElsewhere (events ++ [event]) key ↔
      UnblocksGlobal event key ∨ UnblockedElsewhere events key ∧ event.targetKey ≠ key := by
  constructor
  · rintro ⟨pre, e, post, heq, hunblocks, hpost⟩
    rcases List.eq_nil_or_concat post with rfl | ⟨post', last, rfl⟩
    · obtain ⟨-, hlast⟩ := List.append_inj' heq rfl
      obtain rfl : event = e := by simpa using hlast
      exact Or.inl hunblocks
    · rw [List.concat_eq_append, ← List.cons_append, ← List.append_assoc] at heq
      obtain ⟨hevents, hlast⟩ := List.append_inj' heq rfl
      obtain rfl : event = last := by simpa using hlast
      rw [List.concat_eq_append, List.forall_mem_append, List.forall_mem_singleton] at hpost
      exact Or.inr ⟨⟨pre, e, post', hevents, hunblocks, hpost.1⟩, hpost.2⟩
  · rintro (hunblocks | ⟨⟨pre, e, post, rfl, hunblocks, hpost⟩, hne⟩)
    · exact ⟨events, event, [], rfl, hunblocks, List.forall_mem_nil _⟩
    · refine ⟨pre, e, post ++ [event], by simp, hunblocks, ?_⟩
      rw [List.forall_mem_append, List.forall_mem_singleton]
      exact ⟨hpost, hne⟩

/-! ## Section 2: One event -/

theorem entryKey_injective (kind : BlockTargetKind) (siteScope : Str) :
    Function.Injective (entryKey kind siteScope) := by
  intro a b heq
  cases kind <;> exact List.append_cancel_left heq

section applied

variable {s s' : Store} {now : Nat} {event : BlocklistEvent} {identifier : Str}
  {key : BlocklistTargetKey}

theorem Store.Applied.entryKey_targetKey (h : Store.Applied s now event identifier s') :
    event.targetKey.entryKey = some (entryKey event.targetKind event.siteScope identifier) := by
  unfold BlocklistTargetKey.entryKey
  show (entryIdentifier event.targetKind event.identifier).map _ = _
  rw [h.entryIdentifier_eq]
  rfl

theorem Store.Applied.entryKey_globalKey (h : Store.Applied s now event identifier s') :
    event.globalKey.entryKey = some (entryKey event.targetKind globalScope identifier) := by
  unfold BlocklistTargetKey.entryKey
  show (entryIdentifier event.targetKind event.identifier).map _ = _
  rw [h.entryIdentifier_eq]
  rfl

/-- An event that blocks makes the entry of its own target. -/
theorem lookup_of_block (h : Store.Applied s now event identifier s')
    (hop : event.operation = .block)
    (hroom : ((s.table event.targetKind).entries.lookup
      (entryKey event.targetKind event.siteScope identifier)).isSome = true ∨
      (s.table event.targetKind).total < s.config.maxEntries) (k : Str) :
    ((s'.table event.targetKind).entries.lookup k).isSome =
      (decide (k = entryKey event.targetKind event.siteScope identifier) ||
        ((s.table event.targetKind).entries.lookup k).isSome) := by
  have htable := h.table
  unfold Store.eventTable at htable
  simp only [hop, Shards.store_of_room hroom, Option.some.injEq] at htable
  rw [← htable]
  show (((s.table event.targetKind).entries.insert _ _).lookup k).isSome = _
  rw [Table.lookup_insert_eq]
  by_cases hk : k = entryKey event.targetKind event.siteScope identifier
  · simp [hk]
  · simp [hk]

/-- An event that unblocks removes the entries of its own and of the global
    target. -/
theorem lookup_of_unblock (h : Store.Applied s now event identifier s')
    (hop : event.operation = .unblock) (k : Str) :
    (s'.table event.targetKind).entries.lookup k =
      if k = entryKey event.targetKind event.siteScope identifier ∨
        k = entryKey event.targetKind globalScope identifier then none
      else (s.table event.targetKind).entries.lookup k := by
  have htable := h.table
  unfold Store.eventTable at htable
  simp only [hop, Option.some.injEq] at htable
  rw [← htable]
  exact Store.lookup_removeScoped ..

/-- A target of another kind keeps its entry. -/
theorem hasEntry_of_kind_ne (h : Store.Applied s now event identifier s')
    (hkind : key.targetKind ≠ event.targetKind) : s'.hasEntry key = s.hasEntry key := by
  unfold Store.hasEntry
  rw [h.others key.targetKind hkind]

theorem hasEntry_own {K : List BlocklistTargetKey} (h : Store.Applied s now event identifier s')
    (hroom : NoEviction K s event) : s'.hasEntry event.targetKey = (event.operation == .block) := by
  unfold Store.hasEntry
  rw [h.entryKey_targetKey, Option.any_some]
  show ((s'.table event.targetKind).entries.lookup _).isSome = _
  cases hop : event.operation with
  | block =>
    rw [lookup_of_block h hop (hroom.room hop identifier h.entryIdentifier_eq)]
    simp
  | unblock =>
    rw [lookup_of_unblock h hop, if_pos (Or.inl rfl)]
    rfl

/-- The entry of a global target is removed by an event of another scope. -/
theorem hasEntry_of_unblocksGlobal (h : Store.Applied s now event identifier s')
    (hunblocks : UnblocksGlobal event key) : s'.hasEntry key = false := by
  obtain ⟨kind, siteScope, id⟩ := key
  obtain ⟨hop, rfl, -, rfl, hid⟩ := hunblocks
  unfold Store.hasEntry BlocklistTargetKey.entryKey
  show ((entryIdentifier event.targetKind id).map _).any _ = false
  rw [← hid, h.entryIdentifier_eq, Option.map_some, Option.any_some]
  show ((s'.table event.targetKind).entries.lookup _).isSome = false
  rw [lookup_of_unblock h hop, if_pos (Or.inr rfl)]
  rfl

/-- Any other target keeps its entry or stays without one. -/
theorem hasEntry_of_apart {K : List BlocklistTargetKey}
    (h : Store.Applied s now event identifier s') (hroom : NoEviction K s event)
    (hapart : Apart key event) (hne : event.targetKey ≠ key) (hnot : ¬ UnblocksGlobal event key) :
    s'.hasEntry key = s.hasEntry key := by
  by_cases hkind : key.targetKind = event.targetKind
  · unfold Store.hasEntry
    cases hk : key.entryKey with
    | none => rfl
    | some k =>
      rw [Option.any_some, Option.any_some, hkind]
      have hown : k ≠ entryKey event.targetKind event.siteScope identifier := by
        rintro rfl
        exact hne (hapart.entry ⟨hkind.symm, by rw [h.entryKey_targetKey]; rfl,
          h.entryKey_targetKey.trans hk.symm⟩)
      cases hop : event.operation with
      | block =>
        rw [lookup_of_block h hop (hroom.room hop identifier h.entryIdentifier_eq),
          decide_eq_false hown, Bool.false_or]
      | unblock =>
        have hglobal : k ≠ entryKey event.targetKind globalScope identifier := by
          rintro rfl
          have hscope := hapart.global ⟨hkind.symm, by rw [h.entryKey_globalKey]; rfl,
            h.entryKey_globalKey.trans hk.symm⟩
          unfold BlocklistTargetKey.entryKey at hk
          obtain ⟨id, hid, heq⟩ := Option.map_eq_some_iff.mp hk
          rw [hscope, hkind] at heq
          obtain rfl := entryKey_injective _ _ heq
          refine hnot ⟨hop, hscope, ?_, hkind.symm, h.entryIdentifier_eq.trans hid.symm⟩
          intro hsame
          exact hown (by rw [hsame])
        rw [lookup_of_unblock h hop, if_neg (not_or.mpr ⟨hown, hglobal⟩)]
  · exact hasEntry_of_kind_ne h hkind

/-- The recorded state of a target is that of its last event. -/
theorem get_targetState_of_applied {K : List BlocklistTargetKey} (hK : K.length ≤ targetStateMax)
    (hkeys : s.targetState.keys ⊆ K) (h : Store.Applied s now event identifier s')
    (hroom : NoEviction K s event) (hapart : Apart key event) :
    s'.targetState.get key =
      if event.targetKey = key then some event.lastApplied else s.targetState.get key := by
  have hown : event.targetKey ∈ K := hroom.keys _ (List.mem_cons_self ..)
  have hdisplay := hroom.keys _ h.mem_recordKeys
  have hdirect := Store.keys_directStates_subset hkeys hdisplay (Store.eventDirectRecord now event)
  rw [h.targetState, FifoCache.get_insert_of_room (FifoCache.room_of_subset hdirect hK hown)]
  by_cases htarget : event.targetKey = key
  · rw [if_pos htarget.symm, if_pos htarget]
  · rw [if_neg (Ne.symm htarget), if_neg htarget]
    unfold Store.directStates
    split
    · rw [FifoCache.get_insert_of_room (FifoCache.room_of_subset hkeys hK hdisplay), if_neg]
      rintro rfl
      exact htarget (hapart.record h.mem_recordKeys)
    · rfl

end applied

theorem Store.Refused.hasEntry {s s' : Store} {now : Nat} {event : BlocklistEvent}
    (h : Store.Refused s now event s') (key : BlocklistTargetKey) :
    s'.hasEntry key = s.hasEntry key := by
  rcases h.unchanged with rfl | rfl
  · rfl
  · unfold Store.hasEntry
    rw [Store.table_noted]

/-! ## Section 3: Runs -/

/-- The target has an entry just if it was blocked last, and if it is global, no
    event of another scope has unblocked it since. -/
def Agrees (key : BlocklistTargetKey) (events : List BlocklistEvent) (s : Store) : Prop :=
  s.hasEntry key = true ↔ s.lastOperation key = some .block ∧ ¬ UnblockedElsewhere events key

theorem agrees_new (enabled : Bool) (config : DenyListLimitsConfig) (key : BlocklistTargetKey) :
    Agrees key [] (.new enabled config) := by
  have hentry : (Store.new enabled config).hasEntry key = false := by
    unfold Store.hasEntry
    cases key.entryKey with
    | none => rfl
    | some k => cases key.targetKind <;> rfl
  have hlast : (Store.new enabled config).lastOperation key = none := rfl
  unfold Agrees
  rw [hentry, hlast]
  simp

/-- **Step.** An event that is applied keeps the agreement. -/
theorem Agrees.applied {K : List BlocklistTargetKey} (hK : K.length ≤ targetStateMax)
    {key : BlocklistTargetKey} {events : List BlocklistEvent} {s s' : Store}
    (h : Agrees key events s)
    (hkeys : s.targetState.keys ⊆ K) {now : Nat} {event : BlocklistEvent} {identifier : Str}
    (happlied : Store.Applied s now event identifier s') (hroom : NoEviction K s event)
    (hapart : Apart key event) : Agrees key (events ++ [event]) s' := by
  have hget := get_targetState_of_applied hK hkeys happlied hroom hapart
  unfold Agrees Store.lastOperation
  rw [unblockedElsewhere_snoc, hget]
  by_cases htarget : event.targetKey = key
  -- its own event decides both
  · subst htarget
    have hnot : ¬ UnblocksGlobal event event.targetKey := fun hunblocks =>
      hunblocks.targetKey_ne rfl
    rw [hasEntry_own happlied hroom, if_pos rfl]
    simp [hnot, BlocklistEvent.lastApplied]
  · rw [if_neg htarget]
    by_cases hunblocks : UnblocksGlobal event key
    · rw [hasEntry_of_unblocksGlobal happlied hunblocks]
      simp [hunblocks]
    · rw [hasEntry_of_apart happlied hroom hapart htarget hunblocks]
      simp only [hunblocks, false_or, ne_eq, htarget, not_false_eq_true, and_true]
      exact h

/-- An event that is refused changes neither. -/
theorem Agrees.refused {key : BlocklistTargetKey} {events : List BlocklistEvent} {s s' : Store}
    (h : Agrees key events s) {now : Nat} {event : BlocklistEvent}
    (hrefused : Store.Refused s now event s') : Agrees key events s' := by
  unfold Agrees Store.lastOperation at h ⊢
  rw [hrefused.hasEntry, hrefused.targetState]
  exact h

theorem appliedEvents_snoc (tr : List (Store × (Nat × BlocklistEvent))) (s : Store) (now : Nat)
    (event : BlocklistEvent) :
    appliedEvents (tr ++ [(s, now, event)]) = appliedEvents tr ++
      if (s.applyBlocklistEvent now event).1 = .applied then [event] else [] := by
  unfold appliedEvents
  rw [List.filter_append, List.map_append]
  by_cases hres : (s.applyBlocklistEvent now event).1 = .applied
  · simp [hres]
  · simp [hres]

/-- No event of the run evicts or forgets anything. -/
def RunNoEviction (K : List BlocklistTargetKey) (tr : List (Store × (Nat × BlocklistEvent))) :
    Prop :=
  ∀ step ∈ tr, (step.1.applyBlocklistEvent step.2.1 step.2.2).1 = .applied →
    NoEviction K step.1 step.2.2

/-- **Run.** The agreement holds in every state reached. -/
theorem agrees_of_exec {K : List BlocklistTargetKey} (hK : K.length ≤ targetStateMax)
    (key : BlocklistTargetKey) {tr : List (Store × (Nat × BlocklistEvent))} {s : Store}
    (hrun : eventRuns.Exec tr s) :
    RunNoEviction K tr → s.targetState.keys ⊆ K ∧
      ((∀ step ∈ tr, Apart key step.2.2) → Agrees key (appliedEvents tr) s) := by
  refine System.Exec.history
    (fun tr s => RunNoEviction K tr → s.targetState.keys ⊆ K ∧
      ((∀ step ∈ tr, Apart key step.2.2) → Agrees key (appliedEvents tr) s)) ?_ ?_ hrun
  · rintro s ⟨enabled, config, rfl⟩ -
    exact ⟨List.nil_subset K, fun _ => agrees_new enabled config key⟩
  · rintro tr s ⟨now, event⟩ s' ih rfl hroom
    obtain ⟨hbefore, hlast⟩ := forall_mem_snoc.mp hroom
    obtain ⟨hkeys, hagrees⟩ := ih hbefore
    rw [appliedEvents_snoc]
    rcases s.applyBlocklistEvent_cases now event with
      ⟨hres, identifier, happlied⟩ | ⟨hres, hrefused⟩
    · rw [if_pos hres]
      have hno := hlast hres
      refine ⟨?_, fun hapart => ?_⟩
      · rw [happlied.targetState]
        exact FifoCache.keys_insert_subset_of
          (Store.keys_directStates_subset hkeys (hno.keys _ happlied.mem_recordKeys) _)
          (hno.keys _ (List.mem_cons_self ..)) _
      · obtain ⟨hapartBefore, hapartLast⟩ := forall_mem_snoc.mp hapart
        exact (hagrees hapartBefore).applied hK hkeys happlied hno hapartLast
    · rw [if_neg hres, List.append_nil]
      refine ⟨?_, fun hapart => (hagrees (forall_mem_snoc.mp hapart).1).refused hrefused⟩
      rw [hrefused.targetState]
      exact hkeys

/-- **Entries agree with recorded states**, up to global targets that were
    unblocked elsewhere; and an event removes no entry but its own and the global
    one of its identifier. -/
theorem hasEntry_iff_lastOperation {K : List BlocklistTargetKey} (hK : K.length ≤ targetStateMax)
    {key : BlocklistTargetKey} {tr : List (Store × (Nat × BlocklistEvent))} {s : Store}
    (hrun : eventRuns.Exec tr s) (hroom : RunNoEviction K tr)
    (hapart : ∀ step ∈ tr, Apart key step.2.2) :
    (s.hasEntry key = true ↔ s.lastOperation key = some .block ∧
      ¬ UnblockedElsewhere (appliedEvents tr) key) ∧
    ∀ now event, RunNoEviction K [(s, now, event)] → Apart key event →
      s.hasEntry key = true → (s.applyBlocklistEvent now event).2.hasEntry key = false →
      event.operation = .unblock ∧ (event.targetKey = key ∨ UnblocksGlobal event key) := by
  refine ⟨(agrees_of_exec hK key hrun hroom).2 hapart, ?_⟩
  intro now event hno hapart' hhas hlost
  rcases s.applyBlocklistEvent_cases now event with ⟨hres, identifier, happlied⟩ | ⟨-, hrefused⟩
  · have hno' := hno _ (List.mem_singleton_self _) hres
    by_cases htarget : event.targetKey = key
    · subst htarget
      rw [hasEntry_own happlied hno'] at hlost
      cases hop : event.operation with
      | block =>
        rw [hop] at hlost
        cases hlost
      | unblock => exact ⟨rfl, Or.inl rfl⟩
    · by_cases hunblocks : UnblocksGlobal event key
      · exact ⟨hunblocks.operation, Or.inr hunblocks⟩
      · rw [hasEntry_of_apart happlied hno' hapart' htarget hunblocks, hhas] at hlost
        cases hlost
  · rw [hrefused.hasEntry, hhas] at hlost
    cases hlost

/-- An event for the address 10.0.0.1. -/
def scopedEvent (operation : BlocklistOperation) (siteScope : Str) (id : String) :
    BlocklistEvent where
  operation := operation
  targetKind := .ip
  identifier := "10.0.0.1".toList
  siteScope := siteScope
  reason := none
  provenance := .default
  timestamp := 1
  sourceNode := none
  eventId := some id.toList
  ttlSecs := none
  version := none
  sourceSequence := none
  logicalTime := none

def globalTarget : BlocklistTargetKey := ⟨.ip, globalScope, "10.0.0.1".toList⟩

def siteTarget : BlocklistTargetKey := ⟨.ip, "site".toList, "10.0.0.1".toList⟩

/-- The empty store. -/
def presenceStart : Store := .new true ⟨10, true, 0⟩

/-- The address is blocked globally. -/
def presenceBlocked : Store :=
  (presenceStart.applyBlocklistEvent 1 (scopedEvent .block globalScope "a")).2

/-- It is unblocked in the scope of a site. -/
def presenceUnblocked : Store :=
  (presenceBlocked.applyBlocklistEvent 2 (scopedEvent .unblock "site".toList "b")).2

def presenceTrace : List (Store × (Nat × BlocklistEvent)) :=
  [(presenceStart, 1, scopedEvent .block globalScope "a"),
    (presenceBlocked, 2, scopedEvent .unblock "site".toList "b")]

theorem presenceTrace_exec : eventRuns.Exec presenceTrace presenceUnblocked := by
  have hstart : eventRuns.Exec [] presenceStart := .nil ⟨true, _, rfl⟩
  have hblocked : eventRuns.Exec _ presenceBlocked :=
    hstart.snoc (l := (1, scopedEvent .block globalScope "a")) rfl
  exact hblocked.snoc (l := (2, scopedEvent .unblock "site".toList "b")) rfl

theorem presenceTrace_noEviction : RunNoEviction [globalTarget, siteTarget] presenceTrace := by
  unfold RunNoEviction presenceTrace
  rw [List.forall_mem_cons, List.forall_mem_singleton]
  constructor
  · intro _
    exact ⟨by decide, fun _ _ _ => Or.inr (by decide)⟩
  · intro _
    exact ⟨by decide, fun _ _ _ => Or.inr (by decide)⟩

/-- The global target was unblocked elsewhere, and has no entry. -/
theorem globalTarget_agrees :
    presenceUnblocked.hasEntry globalTarget = true ↔
      presenceUnblocked.lastOperation globalTarget = some .block ∧
        ¬ UnblockedElsewhere (appliedEvents presenceTrace) globalTarget := by
  refine (hasEntry_iff_lastOperation (by decide) presenceTrace_exec presenceTrace_noEviction ?_).1
  unfold presenceTrace
  rw [List.forall_mem_cons, List.forall_mem_singleton]
  exact ⟨⟨by decide, by decide, by decide⟩, ⟨by decide, by decide, by decide⟩⟩

/-- The global target was blocked last and has no entry. -/
theorem blocked_last_without_entry :
    eventRuns.Exec presenceTrace presenceUnblocked ∧
    RunNoEviction [globalTarget, siteTarget] presenceTrace ∧
    presenceUnblocked.lastOperation globalTarget = some .block ∧
    presenceUnblocked.hasEntry globalTarget = false :=
  ⟨presenceTrace_exec, presenceTrace_noEviction, by decide, by decide⟩

end Synvoid.BlockStore
