import Synvoid.BlockStore.Store
import Synvoid.Framework.Tournament
import Mathlib.Data.List.Induction

/-! # Do events of one target converge?

    Two stores that see the same events of a target in different orders, and
    some of them several times, should end in the same state. The recorded state
    of the target is a place that an event takes if it is newer than the event
    that holds it (`Tracks`), so it ends with an event of the top cycle of
    `isNewerThan`, and every such event can end there. The stores converge just
    when all events of the top cycle do the same (`events_converge_iff`).

    The order has cycles: an event of a source can be newer by its sequence
    number and older by its timestamp.
-/

namespace Synvoid.BlockStore

open Synvoid.Framework

def newerEvent (a b : BlocklistEvent) : Bool := a.lastApplied.isNewerThan b.lastApplied

/-- Events applied one after the other, each with the time of its application. -/
def applyEvents (s : Store) (run : List (Nat × BlocklistEvent)) : Store :=
  run.foldl (fun s step => (s.applyBlocklistEvent step.1 step.2).2) s

theorem applyEvents_snoc (s : Store) (run : List (Nat × BlocklistEvent)) (now : Nat)
    (event : BlocklistEvent) :
    applyEvents s (run ++ [(now, event)]) =
      ((applyEvents s run).applyBlocklistEvent now event).2 := by
  unfold applyEvents
  rw [List.foldl_append]
  rfl

/-- The entry that a block event makes. -/
def eventEntry (now : Nat) (event : BlocklistEvent) (identifier : Str) : BlockEntry :=
  .new identifier (event.reason.getD "mesh_event".toList) (event.ttlSecs.getD 3600)
    event.siteScope now event.provenance

/-! ## Section 1: A table with one key -/

/-- The table has at most an entry under one key. -/
structure SoleEntry (table : Shards) (k : Str) (entry : Option BlockEntry) : Prop where
  lookup : ∀ k', table.entries.lookup k' = if k' = k then entry else none
  total : table.total = entry.toList.length

theorem soleEntry_empty (k : Str) : SoleEntry .empty k none where
  lookup k' := by
    rw [ite_self]
    rfl
  total := rfl

theorem SoleEntry.store {table : Shards} {k : Str} {entry : Option BlockEntry}
    (h : SoleEntry table k entry) {maxEntries : Nat} (hmax : 0 < maxEntries) (new : BlockEntry) :
    ∃ table', table.store maxEntries k new = some table' ∧ SoleEntry table' k (some new) := by
  have hself : table.entries.lookup k = entry := by rw [h.lookup, if_pos rfl]
  have hroom : (table.entries.lookup k).isSome = true ∨ table.total < maxEntries := by
    rw [hself, h.total]
    cases entry with
    | none => exact Or.inr hmax
    | some _ => exact Or.inl rfl
  refine ⟨_, Shards.store_of_room hroom new, ?_, ?_⟩
  · intro k'
    rw [Table.lookup_insert_eq, h.lookup]
    by_cases hk : k' = k
    · rw [if_pos hk, if_pos hk]
    · rw [if_neg hk, if_neg hk, if_neg hk]
  · show (if (table.entries.lookup k).isNone = true then table.total + 1 else table.total) = 1
    rw [hself, h.total]
    cases entry <;> rfl

theorem SoleEntry.remove {table : Shards} {k : Str} {entry : Option BlockEntry}
    (h : SoleEntry table k entry) : SoleEntry (table.remove k).2 k none where
  lookup k' := by
    rw [Shards.lookup_remove, h.lookup]
    by_cases hk : k' = k
    · rw [if_pos hk, if_pos hk]
    · rw [if_neg hk, if_neg hk, if_neg hk]
  total := by
    have hself : table.entries.lookup k = entry := by rw [h.lookup, if_pos rfl]
    unfold Shards.remove
    rw [hself]
    cases entry with
    | none => exact h.total
    | some _ =>
      show table.total - 1 = 0
      rw [h.total]
      rfl

theorem SoleEntry.remove_other {table : Shards} {k : Str} (h : SoleEntry table k none) (k' : Str) :
    (table.remove k').2 = table := by
  have hnone : table.entries.lookup k' = none := by rw [h.lookup, ite_self]
  unfold Shards.remove
  rw [hnone]
  rfl

theorem SoleEntry.removeScoped {kind : BlockTargetKind} {table : Shards}
    {siteScope identifier : Str}
    {entry : Option BlockEntry} (h : SoleEntry table (entryKey kind siteScope identifier) entry) :
    SoleEntry (Store.removeScoped kind table siteScope identifier).2
      (entryKey kind siteScope identifier) none := by
  rw [Store.removeScoped_snd]
  split
  · rw [h.remove.remove_other]
    exact h.remove
  · exact h.remove

/-- The lookup of the target finds the entry unless it has expired. -/
theorem SoleEntry.isTargetBlocked {kind : BlockTargetKind} {s : Store} {siteScope identifier : Str}
    {entry : Option BlockEntry} (henabled : s.enabled = true)
    (h : SoleEntry (s.table kind) (entryKey kind siteScope identifier) entry) {now : Nat}
    (hlive : ∀ e, entry = some e → e.isExpired kind now = false) :
    (Store.isTargetBlocked kind s now identifier siteScope).1.isSome = entry.isSome := by
  unfold Store.isTargetBlocked
  rw [if_pos henabled]
  have hself : (s.table kind).entries.lookup (entryKey kind siteScope identifier) = entry := by
    rw [h.lookup, if_pos rfl]
  cases entry with
  | none =>
    have hglobal : (s.table kind).entries.lookup (entryKey kind globalScope identifier) = none := by
      rw [h.lookup, ite_self]
    rw [Shards.lookupLive_of_none hself]
    by_cases hscope : siteScope ≠ globalScope
    · simp only [if_pos hscope, Shards.lookupLive_of_none hglobal]
    · simp only [if_neg hscope]
  | some e =>
    unfold Shards.lookupLive
    simp [hself, hlive e rfl]

/-! ## Section 2: One target -/

/-- The entry that the event in the place of a target has left. -/
inductive HolderEntry (run : List (Nat × BlocklistEvent)) (identifier : Str) :
    Option BlocklistEvent → Option BlockEntry → Prop where
  | empty : HolderEntry run identifier none none
  | block {now : Nat} {event : BlocklistEvent} (hop : event.operation = .block)
      (hmem : (now, event) ∈ run) :
      HolderEntry run identifier (some event) (some (eventEntry now event identifier))
  | unblock {event : BlocklistEvent} (hop : event.operation = .unblock) :
      HolderEntry run identifier (some event) none

/-- Behind events of one target the recorded state is that of the event that
    holds the place, and the entry is what this event has left. -/
structure Tracks (key : BlocklistTargetKey) (identifier : Str)
    (run : List (Nat × BlocklistEvent)) (holder : Option BlocklistEvent) (s : Store) : Prop where
  enabled : s.enabled = true
  offered : Offered newerEvent (run.map Prod.snd) holder
  recorded : s.targetState.get key = holder.map BlocklistEvent.lastApplied
  keys : s.targetState.keys ⊆ [key, ⟨key.targetKind, key.siteScope, identifier⟩]
  seen : ∀ id, s.seenEvents.contains id = true →
    ∃ event ∈ run.map Prod.snd, event.eventId = some id
  entry : ∃ entry, HolderEntry run identifier holder entry ∧
    SoleEntry (s.table key.targetKind) (entryKey key.targetKind key.siteScope identifier) entry

theorem HolderEntry.mono {run run' : List (Nat × BlocklistEvent)} (hsub : run ⊆ run')
    {identifier : Str} {holder : Option BlocklistEvent} {entry : Option BlockEntry}
    (h : HolderEntry run identifier holder entry) : HolderEntry run' identifier holder entry := by
  cases h with
  | empty => exact .empty
  | block hop hmem => exact .block hop (hsub hmem)
  | unblock hop => exact .unblock hop

theorem tracks_new (config : DenyListLimitsConfig) (key : BlocklistTargetKey) (identifier : Str) :
    Tracks key identifier [] none (.new true config) where
  enabled := rfl
  offered := .nil
  recorded := rfl
  keys := List.nil_subset _
  seen := fun id h => (by cases h)
  entry := by
    refine ⟨none, .empty, ?_⟩
    cases key.targetKind <;> exact soleEntry_empty _

/-- The ids that were seen once one more event was noted. -/
theorem contains_noted {s : Store} {event : BlocklistEvent} {id : Str}
    (h : (s.noted event).seenEvents.contains id = true) :
    s.seenEvents.contains id = true ∨ event.eventId = some id := by
  unfold Store.noted at h
  cases hid : event.eventId with
  | none =>
    simp only [hid] at h
    exact Or.inl h
  | some id' =>
    simp only [hid] at h
    rcases List.mem_cons.mp (FifoCache.keys_insert_subset _ _ _ (FifoCache.contains_iff.mp h)) with
      rfl | hbefore
    · exact Or.inr rfl
    · exact Or.inl (FifoCache.contains_iff.mpr hbefore)

section step

variable {key : BlocklistTargetKey} {identifier : Str} {run : List (Nat × BlocklistEvent)}
  {holder : Option BlocklistEvent} {s : Store}

theorem Tracks.seen_snoc (h : Tracks key identifier run holder s) (now : Nat)
    (event : BlocklistEvent) {id : Str} (hseen : (s.noted event).seenEvents.contains id = true) :
    ∃ e ∈ (run ++ [(now, event)]).map Prod.snd, e.eventId = some id := by
  rw [List.map_append]
  rcases contains_noted hseen with hbefore | hnow
  · obtain ⟨e, he, heq⟩ := h.seen id hbefore
    exact ⟨e, List.mem_append_left _ he, heq⟩
  · exact ⟨event, List.mem_append_right _ (List.mem_singleton_self event), hnow⟩

/-- An event that is refused leaves the place as it is. -/
theorem Tracks.refused (h : Tracks key identifier run holder s) {now : Nat}
    {event : BlocklistEvent} {s' : Store} (hrefused : Store.Refused s now event s')
    (hoffered : Offered newerEvent ((run ++ [(now, event)]).map Prod.snd) holder) :
    Tracks key identifier (run ++ [(now, event)]) holder s' := by
  obtain ⟨entry, hholder, hsole⟩ := h.entry
  have hholder' := hholder.mono (List.subset_append_left run [(now, event)])
  rcases hrefused.unchanged with rfl | rfl
  · exact
      { h with
        offered := hoffered
        seen := fun id hseen => by
          obtain ⟨e, he, heq⟩ := h.seen id hseen
          rw [List.map_append]
          exact ⟨e, List.mem_append_left _ he, heq⟩
        entry := ⟨entry, hholder', hsole⟩ }
  · exact
      { enabled := by rw [Store.enabled_noted, h.enabled]
        offered := hoffered
        recorded := by rw [Store.targetState_noted, h.recorded]
        keys := by
          rw [Store.targetState_noted]
          exact h.keys
        seen := fun id hseen => h.seen_snoc now event hseen
        entry := by
          rw [Store.table_noted]
          exact ⟨entry, hholder', hsole⟩ }

theorem Tracks.applied (h : Tracks key identifier run holder s) {now : Nat}
    {event : BlocklistEvent} (htarget : event.targetKey = key) {s' : Store}
    (happlied : Store.Applied s now event identifier s') :
    Tracks key identifier (run ++ [(now, event)]) (some event) s' := by
  subst htarget
  have hdirect : (s.directStates ⟨event.targetKind, event.siteScope, identifier⟩
      (Store.eventDirectRecord now event)).keys ⊆
        [event.targetKey, ⟨event.targetKind, event.siteScope, identifier⟩] :=
    Store.keys_directStates_subset h.keys (List.mem_cons_of_mem _ (List.mem_singleton_self _)) _
  have hroom := FifoCache.room_of_subset hdirect (Nat.le_of_ble_eq_true rfl) (List.mem_cons_self ..)
  exact
    { enabled := happlied.enabled_eq.trans h.enabled
      offered := by
        rw [List.map_append]
        have hchallenge : challenge newerEvent holder event = some event := by
          cases holder with
          | none => rfl
          | some a => exact if_pos (happlied.newer a.lastApplied h.recorded)
        rw [← hchallenge]
        exact h.offered.offer event
      recorded := by
        rw [happlied.targetState, FifoCache.get_insert_of_room hroom, if_pos rfl]
        rfl
      keys := by
        rw [happlied.targetState]
        exact FifoCache.keys_insert_subset_of hdirect (List.mem_cons_self ..) _
      seen := fun id hseen => h.seen_snoc now event (happlied.seenEvents ▸ hseen)
      entry := by
        obtain ⟨entry, -, hsole⟩ := h.entry
        have htable := happlied.table
        unfold Store.eventTable at htable
        cases hop : event.operation with
        | block =>
          simp only [hop] at htable
          obtain ⟨table, hstore, hsole'⟩ := hsole.store s.maxEntries_pos
            (eventEntry now event identifier)
          obtain rfl := Option.some.inj (hstore.symm.trans htable)
          exact ⟨_, .block hop (List.mem_append_right _ (List.mem_singleton_self _)), hsole'⟩
        | unblock =>
          simp only [hop, Option.some.injEq] at htable
          have hsole' := hsole.removeScoped
          exact ⟨none, .unblock hop, htable ▸ hsole'⟩ }

end step

/-- **Step.** An event of the target takes the place if it is newer, and an event
    that was seen was offered before. -/
theorem Tracks.step {key : BlocklistTargetKey} {identifier : Str}
    (hid : entryIdentifier key.targetKind key.identifier = some identifier)
    {run : List (Nat × BlocklistEvent)} {holder : Option BlocklistEvent} {s : Store}
    (h : Tracks key identifier run holder s) (now : Nat) {event : BlocklistEvent}
    (htarget : event.targetKey = key)
    (hids : ∀ e ∈ run.map Prod.snd, e.eventId = event.eventId → e = event) :
    ∃ holder', Tracks key identifier (run ++ [(now, event)]) holder'
      (s.applyBlocklistEvent now event).2 := by
  have hid' : entryIdentifier event.targetKind event.identifier = some identifier := by
    rw [← htarget] at hid
    exact hid
  rcases s.applyBlocklistEvent_cases now event with ⟨-, identifier', happlied⟩ | ⟨-, hrefused⟩
  · obtain rfl := Option.some.inj (hid'.symm.trans happlied.entryIdentifier_eq)
    exact ⟨some event, h.applied htarget happlied⟩
  · refine ⟨holder, h.refused hrefused ?_⟩
    rw [List.map_append]
    cases hrefused.why with
    | disabled hdisabled =>
      rw [h.enabled] at hdisabled
      cases hdisabled
    | invalid hinvalid =>
      rw [hid'] at hinvalid
      cases hinvalid
    | duplicate heq hseen =>
      obtain ⟨e, he, hsame⟩ := h.seen _ hseen
      obtain rfl := hids e he (hsame.trans heq.symm)
      exact h.offered.ignore he
    | @stale last hlast hold =>
      rw [htarget, h.recorded] at hlast
      obtain ⟨a, rfl, rfl⟩ := Option.map_eq_some_iff.mp hlast
      have hchallenge : challenge newerEvent (some a) event = some a :=
        if_neg (by
          rw [newerEvent, hold]
          exact Bool.false_ne_true)
      rw [← hchallenge]
      exact h.offered.offer event
    | full heq hfull =>
      obtain rfl := Option.some.inj (hid'.symm.trans heq)
      obtain ⟨entry, -, hsole⟩ := h.entry
      subst htarget
      unfold Store.eventTable at hfull
      cases hop : event.operation with
      | block =>
        simp only [hop] at hfull
        obtain ⟨table, hstore, -⟩ := hsole.store s.maxEntries_pos (eventEntry now event identifier)
        cases hstore.symm.trans hfull
      | unblock =>
        simp only [hop] at hfull
        cases hfull

/-- **Run.** Every run of events of the target is tracked. -/
theorem exists_tracks {key : BlocklistTargetKey} {identifier : Str}
    (hid : entryIdentifier key.targetKind key.identifier = some identifier)
    {S : List BlocklistEvent} (htarget : ∀ event ∈ S, event.targetKey = key)
    (hids : ∀ a ∈ S, ∀ b ∈ S, a.eventId = b.eventId → a = b) (config : DenyListLimitsConfig)
    {run : List (Nat × BlocklistEvent)} (hrun : ∀ event ∈ run.map Prod.snd, event ∈ S) :
    ∃ holder, Tracks key identifier run holder (applyEvents (.new true config) run) := by
  induction run using List.reverseRecOn with
  | nil => exact ⟨none, tracks_new config key identifier⟩
  | append_singleton run step ih =>
    obtain ⟨now, event⟩ := step
    rw [List.map_append, List.forall_mem_append] at hrun
    obtain ⟨hbefore, hlast⟩ := hrun
    have hevent : event ∈ S := hlast event (List.mem_singleton_self event)
    obtain ⟨holder, htracks⟩ := ih hbefore
    rw [applyEvents_snoc]
    exact htracks.step hid now (htarget event hevent)
      fun e he heq => hids e (hbefore e he) event hevent heq

/-! ## Section 3: Convergence -/

/-- No entry that the events make has expired at the given time. -/
def Unexpired (run : List (Nat × BlocklistEvent)) (now : Nat) : Prop :=
  ∀ step ∈ run,
    (eventEntry step.1 step.2 step.2.identifier).isExpired step.2.targetKind now = false

/-- The run applies the events of `S` and no others, each at least once. -/
def AppliesAll (run : List (Nat × BlocklistEvent)) (S : List BlocklistEvent) : Prop :=
  ∀ event, event ∈ run.map Prod.snd ↔ event ∈ S

/-- Two empty stores agree on the target once all events were applied to both. -/
def Converges (key : BlocklistTargetKey) (S : List BlocklistEvent) : Prop :=
  ∀ (config₁ config₂ : DenyListLimitsConfig) (run₁ run₂ : List (Nat × BlocklistEvent))
    (now₁ now₂ : Nat), AppliesAll run₁ S → AppliesAll run₂ S →
    Unexpired run₁ now₁ → Unexpired run₂ now₂ →
    (applyEvents (.new true config₁) run₁).lastOperation key =
      (applyEvents (.new true config₂) run₂).lastOperation key ∧
    (applyEvents (.new true config₁) run₁).answers now₁ key =
      (applyEvents (.new true config₂) run₂).answers now₂ key

/-- Events that are all applied at time zero. -/
def atZero (l : List BlocklistEvent) : List (Nat × BlocklistEvent) := l.map fun event => (0, event)

theorem map_snd_atZero (l : List BlocklistEvent) : (atZero l).map Prod.snd = l := by
  unfold atZero
  rw [List.map_map]
  exact List.map_id l

theorem appliesAll_atZero {l S : List BlocklistEvent} (hperm : l.Perm S) :
    AppliesAll (atZero l) S := by
  intro event
  rw [map_snd_atZero]
  exact hperm.mem_iff

theorem unexpired_zero (run : List (Nat × BlocklistEvent)) : Unexpired run 0 := by
  intro step _
  unfold BlockEntry.isExpired
  split
  · rfl
  · split <;> exact decide_eq_false (Nat.not_lt_zero _)

section holder

variable {key : BlocklistTargetKey} {identifier : Str} {run : List (Nat × BlocklistEvent)}
  {holder : Option BlocklistEvent} {s : Store}

theorem Tracks.lastOperation (h : Tracks key identifier run holder s) :
    s.lastOperation key = holder.map BlocklistEvent.operation := by
  unfold Store.lastOperation
  rw [h.recorded, Option.map_map]
  rfl

theorem Tracks.answers (h : Tracks key identifier run holder s)
    (hid : entryIdentifier key.targetKind key.identifier = some identifier)
    (htarget : ∀ event ∈ run.map Prod.snd, event.targetKey = key) {now : Nat}
    (hlive : Unexpired run now) :
    s.answers now key = (holder.map BlocklistEvent.operation == some .block) := by
  obtain ⟨entry, hentry, hsole⟩ := h.entry
  rw [Store.answers_eq hid, hsole.isTargetBlocked h.enabled]
  · cases hentry with
    | empty => rfl
    | block hop _ =>
      rw [Option.map_some, hop]
      rfl
    | unblock hop =>
      rw [Option.map_some, hop]
      rfl
  · intro e he
    cases hentry with
    | empty => cases he
    | @block at' event hop hmem =>
      obtain rfl := Option.some.inj he
      have hkind : event.targetKey = key := htarget event (List.mem_map_of_mem hmem)
      rw [← hkind]
      exact hlive _ hmem
    | unblock => cases he

end holder

section converge

variable {key : BlocklistTargetKey} {S : List BlocklistEvent}

/-- The operation that a run ends with is that of an event of the top cycle. -/
theorem exists_holder_operation {identifier : Str}
    (hid : entryIdentifier key.targetKind key.identifier = some identifier)
    (htarget : ∀ event ∈ S, event.targetKey = key)
    (hids : ∀ a ∈ S, ∀ b ∈ S, a.eventId = b.eventId → a = b) (hordered : IsTournament newerEvent S)
    (config : DenyListLimitsConfig) {run : List (Nat × BlocklistEvent)} (hrun : AppliesAll run S)
    {now : Nat} (hlive : Unexpired run now) :
    ∃ operation : Option BlocklistOperation,
      (applyEvents (.new true config) run).lastOperation key = operation ∧
      (applyEvents (.new true config) run).answers now key = (operation == some .block) ∧
      (S = [] → operation = none) ∧
      (S ≠ [] → ∃ a, InTopCycle newerEvent S a ∧ operation = some a.operation) := by
  obtain ⟨holder, htracks⟩ :=
    exists_tracks hid htarget hids config fun event hevent => (hrun event).mp hevent
  refine ⟨holder.map BlocklistEvent.operation, htracks.lastOperation,
    htracks.answers hid (fun event hevent => htarget event ((hrun event).mp hevent)) hlive, ?_, ?_⟩
  · rintro rfl
    have hnil : run.map Prod.snd = [] :=
      List.eq_nil_iff_forall_not_mem.mpr fun event hevent =>
        List.not_mem_nil ((hrun event).mp hevent)
    have hoffered := htracks.offered
    rw [hnil] at hoffered
    rw [hoffered.eq_foldl List.nodup_nil]
    rfl
  · intro hne
    obtain ⟨a, rfl, htop⟩ := htracks.offered.inTopCycle hordered hne hrun
    exact ⟨a, htop, rfl⟩

/-- An event of the top cycle is the last that is applied in some order. -/
theorem exists_run_of_inTopCycle {identifier : Str}
    (hid : entryIdentifier key.targetKind key.identifier = some identifier)
    (htarget : ∀ event ∈ S, event.targetKey = key)
    (hids : ∀ a ∈ S, ∀ b ∈ S, a.eventId = b.eventId → a = b) (hS : S.Nodup)
    (config : DenyListLimitsConfig) {a : BlocklistEvent} (ha : InTopCycle newerEvent S a) :
    ∃ run, AppliesAll run S ∧ Unexpired run 0 ∧
      (applyEvents (.new true config) run).lastOperation key = some a.operation := by
  obtain ⟨l, hperm, hlast⟩ := ha.exists_order hS
  have hrun := appliesAll_atZero hperm
  refine ⟨atZero l, hrun, unexpired_zero _, ?_⟩
  obtain ⟨holder, htracks⟩ :=
    exists_tracks hid htarget hids config fun event hevent => (hrun event).mp hevent
  have hoffered := htracks.offered
  rw [map_snd_atZero] at hoffered
  rw [htracks.lastOperation, hoffered.eq_foldl (hperm.nodup_iff.mpr hS), hlast]
  rfl

/-- **Events of one target converge just when the top cycle of their order does
    one thing.** -/
theorem events_converge_iff
    (hvalid : (entryIdentifier key.targetKind key.identifier).isSome = true)
    (htarget : ∀ event ∈ S, event.targetKey = key)
    (hids : (S.map BlocklistEvent.eventId).Nodup) (hordered : IsTournament newerEvent S) :
    Converges key S ↔ ∀ a b, InTopCycle newerEvent S a → InTopCycle newerEvent S b →
      a.operation = b.operation := by
  obtain ⟨identifier, hid⟩ := Option.isSome_iff_exists.mp hvalid
  have hS : S.Nodup := hids.of_map
  have hinj : ∀ a ∈ S, ∀ b ∈ S, a.eventId = b.eventId → a = b :=
    fun a ha b hb heq => List.inj_on_of_nodup_map hids ha hb heq
  constructor
  · intro hconverges a b ha hb
    have config : DenyListLimitsConfig := ⟨1, true, 0⟩
    obtain ⟨run₁, hrun₁, hlive₁, hlast₁⟩ :=
      exists_run_of_inTopCycle hid htarget hinj hS config ha
    obtain ⟨run₂, hrun₂, hlive₂, hlast₂⟩ :=
      exists_run_of_inTopCycle hid htarget hinj hS config hb
    have heq := (hconverges config config run₁ run₂ 0 0 hrun₁ hrun₂ hlive₁ hlive₂).1
    rw [hlast₁, hlast₂] at heq
    exact Option.some.inj heq
  · intro hsame config₁ config₂ run₁ run₂ now₁ now₂ hrun₁ hrun₂ hlive₁ hlive₂
    obtain ⟨operation₁, hlast₁, hanswers₁, hnil₁, htop₁⟩ :=
      exists_holder_operation hid htarget hinj hordered config₁ hrun₁ hlive₁
    obtain ⟨operation₂, hlast₂, hanswers₂, hnil₂, htop₂⟩ :=
      exists_holder_operation hid htarget hinj hordered config₂ hrun₂ hlive₂
    have heq : operation₁ = operation₂ := by
      by_cases hne : S = []
      · rw [hnil₁ hne, hnil₂ hne]
      · obtain ⟨a, ha, rfl⟩ := htop₁ hne
        obtain ⟨b, hb, rfl⟩ := htop₂ hne
        rw [hsame a b ha hb]
    rw [hlast₁, hlast₂, hanswers₁, hanswers₂, heq]
    exact ⟨rfl, rfl⟩

end converge

/-- An event of one source for the address 10.0.0.1, in the global scope. -/
def eventOf (operation : BlocklistOperation) (id source : String) (sequence : Option Nat)
    (timestamp : Nat) : BlocklistEvent where
  operation := operation
  targetKind := .ip
  identifier := "10.0.0.1".toList
  siteScope := globalScope
  reason := none
  provenance := .default
  timestamp := timestamp
  sourceNode := some source.toList
  eventId := some id.toList
  ttlSecs := none
  version := none
  sourceSequence := sequence
  logicalTime := none

/-- A source blocks with its second event, whose timestamp is the lowest; its
    first event and that of another source unblock. -/
def cycleOfThree : List BlocklistEvent :=
  [eventOf .block "a" "x" (some 2) 1, eventOf .unblock "b" "y" none 2,
    eventOf .unblock "c" "x" (some 1) 3]

def cycleKey : BlocklistTargetKey := ⟨.ip, globalScope, "10.0.0.1".toList⟩

theorem cycleOfThree_isTournament : IsTournament newerEvent cycleOfThree := by
  unfold IsTournament
  decide

theorem cycleOfThree_converges_iff :
    Converges cycleKey cycleOfThree ↔
      ∀ a b, InTopCycle newerEvent cycleOfThree a → InTopCycle newerEvent cycleOfThree b →
        a.operation = b.operation :=
  events_converge_iff (by decide) (by decide) (by decide) cycleOfThree_isTournament

/-- In the order of the timestamps the address ends unblocked, in the reverse
    order it ends blocked. -/
theorem cycleOfThree_diverges :
    (entryIdentifier cycleKey.targetKind cycleKey.identifier).isSome = true ∧
    (∀ event ∈ cycleOfThree, event.targetKey = cycleKey) ∧
    (cycleOfThree.map BlocklistEvent.eventId).Nodup ∧ IsTournament newerEvent cycleOfThree ∧
    ¬ Converges cycleKey cycleOfThree := by
  refine ⟨by decide, by decide, by decide, cycleOfThree_isTournament, ?_⟩
  intro hconverges
  have hagree := hconverges ⟨1, true, 0⟩ ⟨1, true, 0⟩ (atZero cycleOfThree)
    (atZero cycleOfThree.reverse) 0 0 (appliesAll_atZero (.refl _))
    (appliesAll_atZero (List.reverse_perm _)) (unexpired_zero _) (unexpired_zero _)
  exact absurd hagree.2 (by decide)

end Synvoid.BlockStore
