import Synvoid.BlockStore.Store
import Synvoid.Framework.Transition

/-! # Catching up on missed events

    A peer keeps its latest events in a log of bounded length. The position of
    an event in the whole history is its sequence number; it is not stored, but
    follows from the number of the next event and the length of the log.

    A client asks for the events behind its cursor, applies them, and moves its
    cursor to the newest position of the log if any of them was new or known. As
    long as no answer is cut off at the number of events that was asked for, the
    client misses nothing that was in the log when it first asked
    (`catchup_loses_nothing`). What was dropped before that is not announced as a
    gap (`dropped_before_first_request`).
-/

namespace Synvoid.BlockStore

open Synvoid.Framework

/-! ## Section 1: Requests -/

structure BlocklistEventCursor where
  sinceSequence : Option Nat
  maxEvents : Nat

structure BlocklistCatchupResult where
  events : List BlocklistEvent
  historyComplete : Bool
  latestSequence : Nat
  latestTimestamp : Nat
  snapshotRequired : Bool
  deriving DecidableEq

/-- `BlocklistEventLog::new`. -/
def BlocklistEventLog.new (maxEvents : Nat) : BlocklistEventLog := ⟨[], [], maxEvents, 0⟩

namespace BlocklistEventLog

/-- `oldest_seq`: the sequence number of the first event in the log. -/
def oldestSequence (log : BlocklistEventLog) : Nat := log.nextSequence - log.events.length

/-- `evicted_gap`: events behind the cursor were dropped. -/
def evictedGap (log : BlocklistEventLog) (since : Nat) : Bool :=
  min (since + 1) u64Max < log.oldestSequence && log.oldestSequence > 0

/-- `first_idx`: the index of the first event behind the cursor. -/
def firstIdx (log : BlocklistEventLog) (since : Nat) : Nat :=
  if since < log.oldestSequence then 0
  else min ((since - log.oldestSequence + 1) % (u64Max + 1)) log.events.length

/-- The events in the log behind a cursor. -/
def behind (log : BlocklistEventLog) : Option Nat → List BlocklistEvent
  | none => log.events
  | some since => log.events.drop (log.firstIdx since)

/-- `query_since`. -/
def querySince (log : BlocklistEventLog) (cursor : BlocklistEventCursor) : BlocklistCatchupResult :=
  if log.events.length = 0 then
    { events := []
      historyComplete := true
      latestSequence := cursor.sinceSequence.getD 0
      latestTimestamp := 0
      snapshotRequired := false }
  else
    let gap := cursor.sinceSequence.any log.evictedGap
    { events := (log.behind cursor.sinceSequence).take cursor.maxEvents
      historyComplete := !gap
      latestSequence := log.nextSequence - 1
      latestTimestamp := (log.events.getLast?.map (·.timestamp)).getD 0
      snapshotRequired := gap }

end BlocklistEventLog

/-- A client with the cursor it keeps for the peer. -/
structure CatchupClient where
  store : Store
  cursor : Option Nat

/-- The loop over the events of an answer: whether any of them was applied or known,
    and the store behind them. -/
def CatchupClient.applyAll (s : Store) (now : Nat) (events : List BlocklistEvent) : Bool × Store :=
  events.foldl (fun acc event =>
    let (result, s) := acc.2.applyBlocklistEvent now event
    (acc.1 || result == .applied || result == .noopDuplicate, s)) (false, s)

/-- The handler of a `BlocklistCatchupResponse`. -/
def CatchupClient.receive (client : CatchupClient) (now : Nat)
    (response : BlocklistCatchupResult) : CatchupClient :=
  let (progress, store) := applyAll client.store now response.events
  { store := store
    cursor := if progress then some response.latestSequence else client.cursor }

/-! ## Section 2: Appends and exchanges -/

structure Catchup where
  log : BlocklistEventLog
  client : CatchupClient

inductive CatchupStep where
  | append (event : BlocklistEvent)
  | exchange (now maxEvents : Nat)

namespace Catchup

/-- The answer to the client's request. -/
def response (c : Catchup) (maxEvents : Nat) : BlocklistCatchupResult :=
  c.log.querySince ⟨c.client.cursor, maxEvents⟩

def next (c : Catchup) : CatchupStep → Catchup
  | .append event => { c with log := (c.log.append event).2 }
  | .exchange now maxEvents => { c with client := c.client.receive now (c.response maxEvents) }

end Catchup

/-- A log that starts empty and a client without a cursor. -/
def catchup (capacity : Nat) : System Catchup CatchupStep where
  init c := c.log = .new capacity ∧ c.client.cursor = none
  step c l c' := c' = c.next l

/-- The event of a step, if the log takes it. -/
def appendedEvent (step : Catchup × CatchupStep) : Option BlocklistEvent :=
  match step.2 with
  | .append event => (step.1.log.append event).1.map fun _ => event
  | .exchange _ _ => none

/-- The events that the log took, in their order. -/
def appendedEvents (tr : List (Catchup × CatchupStep)) : List BlocklistEvent :=
  tr.filterMap appendedEvent

/-- The events of a step's answer. -/
def receivedEvents (step : Catchup × CatchupStep) : List BlocklistEvent :=
  match step.2 with
  | .append _ => []
  | .exchange _ maxEvents => (step.1.response maxEvents).events

/-- The client moves its cursor to what the answer says. -/
def movesCursor (c : Catchup) (now maxEvents : Nat) : Bool :=
  (CatchupClient.applyAll c.client.store now (c.response maxEvents).events).1

/-- The events of a step's answer, if the client moves its cursor. -/
def takenEvents (step : Catchup × CatchupStep) : List BlocklistEvent :=
  match step.2 with
  | .append _ => []
  | .exchange now maxEvents =>
      if movesCursor step.1 now maxEvents then receivedEvents step else []

/-- What the client has received in answers after which it moved its cursor. Any other
    answer is followed by one from the same position. -/
def taken (tr : List (Catchup × CatchupStep)) : List BlocklistEvent := tr.flatMap takenEvents

/-- The answer says that a snapshot is required or that history is missing. -/
def announcesGap (step : Catchup × CatchupStep) : Bool :=
  match step.2 with
  | .append _ => false
  | .exchange _ maxEvents =>
      (step.1.response maxEvents).snapshotRequired || !(step.1.response maxEvents).historyComplete

/-- The answer holds all events of the log behind the cursor. -/
def notCutOff (step : Catchup × CatchupStep) : Bool :=
  match step.2 with
  | .append _ => true
  | .exchange _ maxEvents => (step.1.log.behind step.1.client.cursor).length ≤ maxEvents

/-- A request without a cursor. -/
def asksFromStart (step : Catchup × CatchupStep) : Bool :=
  match step.2 with
  | .append _ => false
  | .exchange _ _ => step.1.client.cursor == none

/-! ## Section 3: What the log holds -/

/-- The log holds the end of what was appended, and something if anything was. -/
structure HoldsEnd (appended : List BlocklistEvent) (log : BlocklistEventLog) : Prop where
  nextSequence : log.nextSequence = appended.length
  oldest_le : log.oldestSequence ≤ appended.length
  events : log.events = appended.drop log.oldestSequence
  nonempty : log.events = [] → appended = []

theorem holdsEnd_new (capacity : Nat) : HoldsEnd [] (.new capacity) where
  nextSequence := rfl
  oldest_le := Nat.le_refl 0
  events := rfl
  nonempty := fun _ => rfl

theorem append_of_seen {log : BlocklistEventLog} {event : BlocklistEvent}
    (h : event.eventId.any log.seenIds.contains = true) : log.append event = (none, log) :=
  if_pos h

/-- What a log that takes the event looks like. -/
theorem append_of_new {log : BlocklistEventLog} {event : BlocklistEvent}
    (h : ¬ event.eventId.any log.seenIds.contains = true) :
    (log.append event).1 = some log.nextSequence ∧
    (log.append event).2.events =
      (log.events ++ [event]).drop (log.events.length + 1 - log.maxEvents) ∧
    (log.append event).2.nextSequence = min (log.nextSequence + 1) u64Max := by
  unfold BlocklistEventLog.append
  rw [if_neg h]
  refine ⟨rfl, ?_, rfl⟩
  simp only [List.length_append, List.length_singleton]

theorem maxEvents_append (log : BlocklistEventLog) (event : BlocklistEvent) :
    (log.append event).2.maxEvents = log.maxEvents := by
  unfold BlocklistEventLog.append
  split <;> rfl

/-- **Step.** A log that has taken an event still holds the end of the history. -/
theorem HoldsEnd.append {appended : List BlocklistEvent} {log : BlocklistEventLog}
    (h : HoldsEnd appended log) (hcapacity : 0 < log.maxEvents) {event : BlocklistEvent}
    (hnew : ¬ event.eventId.any log.seenIds.contains = true)
    (hcount : (appended ++ [event]).length ≤ u64Max) :
    HoldsEnd (appended ++ [event]) (log.append event).2 := by
  obtain ⟨-, hevents, hnext⟩ := append_of_new hnew
  have hlength : log.events.length = appended.length - log.oldestSequence := by
    have hheld := congrArg List.length h.events
    rwa [List.length_drop] at hheld
  have holdest := h.oldest_le
  rw [List.length_append, List.length_singleton] at hcount
  rw [h.nextSequence, Nat.min_eq_left hcount] at hnext
  -- the events that are dropped now are added to those dropped before
  have hfirst : (log.append event).2.oldestSequence =
      log.oldestSequence + (log.events.length + 1 - log.maxEvents) := by
    unfold BlocklistEventLog.oldestSequence at holdest hlength ⊢
    rw [hnext, hevents, List.length_drop, List.length_append, List.length_singleton]
    rw [h.nextSequence] at holdest hlength ⊢
    omega
  refine ⟨?_, ?_, ?_, ?_⟩
  · rw [hnext, List.length_append, List.length_singleton]
  · rw [hfirst, List.length_append, List.length_singleton]
    omega
  · rw [hevents, hfirst, ← List.drop_drop, List.drop_append_of_le_length holdest, ← h.events]
  · intro hnil
    rw [hevents, List.drop_eq_nil_iff, List.length_append, List.length_singleton] at hnil
    omega

theorem querySince_of_nil {log : BlocklistEventLog} (h : log.events = [])
    (cursor : BlocklistEventCursor) : (log.querySince cursor).events = [] := by
  unfold BlocklistEventLog.querySince
  rw [if_pos (by rw [h]; rfl)]

theorem querySince_of_ne_nil {log : BlocklistEventLog} (h : log.events ≠ [])
    (cursor : BlocklistEventCursor) :
    log.querySince cursor =
      { events := (log.behind cursor.sinceSequence).take cursor.maxEvents
        historyComplete := !cursor.sinceSequence.any log.evictedGap
        latestSequence := log.nextSequence - 1
        latestTimestamp := (log.events.getLast?.map (·.timestamp)).getD 0
        snapshotRequired := cursor.sinceSequence.any log.evictedGap } :=
  if_neg fun hlength => h (List.length_eq_zero_iff.mp hlength)

/-- An answer that is not cut off and announces no gap holds all that was appended
    behind the cursor. -/
theorem behind_eq {appended : List BlocklistEvent} {log : BlocklistEventLog}
    (h : HoldsEnd appended log) (hcount : appended.length ≤ u64Max) {since : Nat}
    (hsince : since < appended.length) (hgap : log.evictedGap since = false) :
    log.behind (some since) = appended.drop (since + 1) := by
  have hno : log.oldestSequence ≤ since + 1 := by
    unfold BlocklistEventLog.evictedGap at hgap
    simp only [Bool.and_eq_false_iff, decide_eq_false_iff_not] at hgap
    omega
  have hlength : log.events.length = appended.length - log.oldestSequence := by
    have hheld := congrArg List.length h.events
    rwa [List.length_drop] at hheld
  show log.events.drop (log.firstIdx since) = _
  have hidx : log.oldestSequence + log.firstIdx since = since + 1 := by
    unfold BlocklistEventLog.firstIdx
    split
    · omega
    · rw [Nat.mod_eq_of_lt (by omega)]
      omega
  rw [h.events, List.drop_drop, hidx]

/-! ## Section 4: Where the client stands -/

/-- The client has taken what was appended from the oldest event of an answer without
    a cursor up to its cursor. -/
def StandsAt (tr : List (Catchup × CatchupStep)) : Option Nat → Prop
  | none => taken tr = []
  | some since => since < (appendedEvents tr).length ∧
      ∃ asked ∈ tr, asksFromStart asked = true ∧ asked.1.log.oldestSequence ≤ since + 1 ∧
        taken tr = ((appendedEvents tr).take (since + 1)).drop asked.1.log.oldestSequence

theorem appendedEvents_snoc (tr : List (Catchup × CatchupStep)) (step : Catchup × CatchupStep) :
    appendedEvents (tr ++ [step]) = appendedEvents tr ++ (appendedEvent step).toList := by
  unfold appendedEvents
  rw [List.filterMap_append]
  cases h : appendedEvent step <;> simp [h]

theorem taken_snoc (tr : List (Catchup × CatchupStep)) (step : Catchup × CatchupStep) :
    taken (tr ++ [step]) = taken tr ++ takenEvents step := by
  unfold taken
  rw [List.flatMap_append, List.flatMap_singleton]

/-- An append changes nothing for the client. -/
theorem StandsAt.append {tr : List (Catchup × CatchupStep)} {cursor : Option Nat}
    (h : StandsAt tr cursor) (c : Catchup) (event : BlocklistEvent) :
    StandsAt (tr ++ [(c, .append event)]) cursor := by
  have htaken : taken (tr ++ [(c, .append event)]) = taken tr := by
    rw [taken_snoc]
    exact List.append_nil _
  cases cursor with
  | none => exact htaken.trans h
  | some since =>
    obtain ⟨hsince, asked, hmem, hasks, hle, heq⟩ := h
    refine ⟨?_, asked, List.mem_append_left _ hmem, hasks, hle, ?_⟩
    · rw [appendedEvents_snoc, List.length_append]
      omega
    · rw [htaken, heq, appendedEvents_snoc, List.take_append_of_le_length (by omega)]

/-- What the client has when it gets an answer. -/
theorem taken_append_response {tr : List (Catchup × CatchupStep)} {c : Catchup}
    (hlog : HoldsEnd (appendedEvents tr) c.log) (hcount : (appendedEvents tr).length ≤ u64Max)
    (hstands : StandsAt tr c.client.cursor) {now maxEvents : Nat}
    (hwhole : notCutOff (c, .exchange now maxEvents) = true)
    (hgap : announcesGap (c, .exchange now maxEvents) = false) :
    ∃ asked ∈ tr ++ [(c, .exchange now maxEvents)], asksFromStart asked = true ∧
      asked.1.log.oldestSequence ≤ (appendedEvents tr).length ∧
      taken tr ++ (c.response maxEvents).events =
        (appendedEvents tr).drop asked.1.log.oldestSequence := by
  have hresponse : (c.response maxEvents).events = c.log.behind c.client.cursor := by
    unfold Catchup.response
    by_cases hnil : c.log.events = []
    · rw [querySince_of_nil hnil]
      cases c.client.cursor <;> simp [BlocklistEventLog.behind, hnil]
    · rw [querySince_of_ne_nil hnil]
      exact List.take_of_length_le (of_decide_eq_true hwhole)
  rw [hresponse]
  cases hcursor : c.client.cursor with
  | none =>
    rw [hcursor] at hstands
    refine ⟨_, List.mem_append_right _ (List.mem_singleton_self _), ?_, hlog.oldest_le, ?_⟩
    · show (c.client.cursor == none) = true
      rw [hcursor]
      rfl
    · rw [show taken tr = [] from hstands, List.nil_append]
      exact hlog.events
  | some since =>
    rw [hcursor] at hstands
    obtain ⟨hsince, asked, hmem, hasks, hle, heq⟩ := hstands
    have hno : c.log.evictedGap since = false := by
      have hne : c.log.events ≠ [] := by
        intro hnil
        rw [hlog.nonempty hnil] at hsince
        cases hsince
      unfold announcesGap Catchup.response at hgap
      simp only [querySince_of_ne_nil hne, hcursor, Option.any_some, Bool.or_eq_false_iff] at hgap
      exact hgap.1
    refine ⟨asked, List.mem_append_left _ hmem, hasks, by omega, ?_⟩
    rw [behind_eq hlog hcount hsince hno, heq]
    have htake : asked.1.log.oldestSequence ≤ ((appendedEvents tr).take (since + 1)).length := by
      rw [List.length_take]
      omega
    rw [← List.drop_append_of_le_length htake, List.take_append_drop]

theorem applyAll_nil (s : Store) (now : Nat) : CatchupClient.applyAll s now [] = (false, s) := rfl

theorem cursor_exchange (c : Catchup) (now maxEvents : Nat) :
    (c.next (.exchange now maxEvents)).client.cursor =
      if movesCursor c now maxEvents then some (c.response maxEvents).latestSequence
      else c.client.cursor := rfl

/-- **Step.** Behind an answer the client stands at its cursor again. -/
theorem StandsAt.exchange {tr : List (Catchup × CatchupStep)} {c : Catchup}
    (hlog : HoldsEnd (appendedEvents tr) c.log) (hcount : (appendedEvents tr).length ≤ u64Max)
    (hstands : StandsAt tr c.client.cursor) {now maxEvents : Nat}
    (hwhole : notCutOff (c, .exchange now maxEvents) = true)
    (hgap : announcesGap (c, .exchange now maxEvents) = false) :
    StandsAt (tr ++ [(c, .exchange now maxEvents)])
      (c.next (.exchange now maxEvents)).client.cursor := by
  have happended : appendedEvents (tr ++ [(c, .exchange now maxEvents)]) = appendedEvents tr := by
    rw [appendedEvents_snoc]
    exact List.append_nil _
  rw [cursor_exchange]
  split
  · next hmoves =>
    obtain ⟨asked, hmem, hasks, hle, heq⟩ :=
      taken_append_response hlog hcount hstands hwhole hgap
    -- an answer without events does not move the cursor, so the log has an event
    have hne : c.log.events ≠ [] := by
      intro hnil
      unfold movesCursor at hmoves
      rw [Catchup.response, querySince_of_nil hnil, applyAll_nil] at hmoves
      cases hmoves
    have hpos : 0 < (appendedEvents tr).length := by
      apply List.length_pos_of_ne_nil
      intro hnil
      apply hne
      rw [hlog.events, hnil, List.drop_nil]
    have hlatest : (c.response maxEvents).latestSequence = (appendedEvents tr).length - 1 := by
      rw [Catchup.response, querySince_of_ne_nil hne, ← hlog.nextSequence]
    rw [hlatest]
    refine ⟨?_, asked, hmem, hasks, by omega, ?_⟩
    · rw [happended]
      omega
    · rw [happended, taken_snoc, Nat.sub_add_cancel hpos, List.take_length, ← heq]
      exact congrArg (taken tr ++ ·) (if_pos hmoves)
  · next hstays =>
    have htaken : taken (tr ++ [(c, .exchange now maxEvents)]) = taken tr := by
      rw [taken_snoc]
      exact (congrArg (taken tr ++ ·) (if_neg hstays)).trans (List.append_nil _)
    cases hcursor : c.client.cursor with
    | none =>
      rw [hcursor] at hstands
      exact htaken.trans hstands
    | some since =>
      rw [hcursor] at hstands
      obtain ⟨hsince, asked, hmem, hasks, hle, heq⟩ := hstands
      refine ⟨?_, asked, List.mem_append_left _ hmem, hasks, hle, ?_⟩
      · rw [happended]
        exact hsince
      · rw [htaken, happended, heq]

/-- What holds of a run with answers that are not cut off and announce no gap. -/
structure CaughtUp (capacity : Nat) (tr : List (Catchup × CatchupStep)) (c : Catchup) : Prop where
  maxEvents : c.log.maxEvents = capacity
  log : (appendedEvents tr).length ≤ u64Max → HoldsEnd (appendedEvents tr) c.log
  stands : (appendedEvents tr).length ≤ u64Max → (∀ step ∈ tr, notCutOff step = true) →
    (∀ step ∈ tr, announcesGap step = false) → StandsAt tr c.client.cursor

/-- **Run.** -/
theorem caughtUp_of_exec {capacity : Nat} (hcapacity : 0 < capacity)
    {tr : List (Catchup × CatchupStep)} {c : Catchup} (h : (catchup capacity).Exec tr c) :
    CaughtUp capacity tr c := by
  refine System.Exec.history (CaughtUp capacity) ?_ ?_ h
  · rintro c ⟨hlog, hcursor⟩
    refine ⟨by rw [hlog]; rfl, ?_, ?_⟩
    · intro _
      rw [hlog]
      exact holdsEnd_new capacity
    · intro _ _ _
      rw [hcursor]
      rfl
  · intro tr c l c' ih hstep
    obtain rfl : c' = c.next l := hstep
    have hle : (appendedEvents tr).length ≤ (appendedEvents (tr ++ [(c, l)])).length := by
      rw [appendedEvents_snoc, List.length_append]
      omega
    refine ⟨?_, ?_, ?_⟩
    · cases l with
      | append event => exact (maxEvents_append c.log event).trans ih.maxEvents
      | exchange _ _ => exact ih.maxEvents
    · intro hcount
      have hlog := ih.log (by omega)
      rw [appendedEvents_snoc] at hcount ⊢
      cases l with
      | append event =>
        show HoldsEnd _ (c.log.append event).2
        by_cases hseen : event.eventId.any c.log.seenIds.contains = true
        · have hnone : appendedEvent (c, .append event) = none := by
            show (c.log.append event).1.map (fun _ => event) = none
            rw [append_of_seen hseen]
            rfl
          rw [hnone, append_of_seen hseen, Option.toList_none, List.append_nil]
          exact hlog
        · have hsome : appendedEvent (c, .append event) = some event := by
            show (c.log.append event).1.map (fun _ => event) = some event
            rw [(append_of_new hseen).1]
            rfl
          rw [hsome] at hcount ⊢
          exact hlog.append (ih.maxEvents ▸ hcapacity) hseen hcount
      | exchange now maxEvents => exact (List.append_nil (appendedEvents tr)).symm ▸ hlog
    · intro hcount hwhole hgap
      rw [forall_mem_snoc] at hwhole hgap
      have hcount' : (appendedEvents tr).length ≤ u64Max := by omega
      have hstands := ih.stands hcount' hwhole.1 hgap.1
      cases l with
      | append event => exact hstands.append c event
      | exchange now maxEvents => exact hstands.exchange (ih.log hcount') hcount' hwhole.2 hgap.2

/-- **Catching up loses nothing that was in the log when the client first asked.** If
    no answer was cut off and none has announced a gap, then at every exchange the
    answers that moved the cursor and this one together are what was appended, in
    order, from the oldest event that the log held at a request without a cursor. -/
theorem catchup_loses_nothing {capacity : Nat} (hcapacity : 0 < capacity)
    {tr : List (Catchup × CatchupStep)} {c : Catchup} (hexec : (catchup capacity).Exec tr c)
    (hcount : (appendedEvents tr).length ≤ u64Max) (now maxEvents : Nat)
    (hwhole : ∀ step ∈ tr ++ [(c, .exchange now maxEvents)], notCutOff step = true) :
    (∃ step ∈ tr ++ [(c, .exchange now maxEvents)], announcesGap step = true) ∨
    ∃ asked ∈ tr ++ [(c, .exchange now maxEvents)], asksFromStart asked = true ∧
      taken tr ++ (c.response maxEvents).events =
        (appendedEvents tr).drop asked.1.log.oldestSequence := by
  by_cases hgap : ∃ step ∈ tr ++ [(c, .exchange now maxEvents)], announcesGap step = true
  · exact Or.inl hgap
  · right
    have hnogap : ∀ step ∈ tr ++ [(c, CatchupStep.exchange now maxEvents)],
        announcesGap step = false := by
      intro step hstep
      exact Bool.eq_false_iff.mpr fun h => hgap ⟨step, hstep, h⟩
    have hrun := caughtUp_of_exec hcapacity hexec
    rw [forall_mem_snoc] at hwhole hnogap
    obtain ⟨asked, hmem, hasks, -, heq⟩ := taken_append_response (hrun.log hcount) hcount
      (hrun.stands hcount hwhole.1 hnogap.1) hwhole.2 hnogap.2
    exact ⟨asked, hmem, hasks, heq⟩

/-! ### Events that were dropped before the first request -/

def catchupEvent (id : String) : BlocklistEvent where
  operation := .block
  targetKind := .meshId
  identifier := id.toList
  siteScope := globalScope
  reason := none
  provenance := .default
  timestamp := 1
  sourceNode := none
  eventId := some id.toList
  ttlSecs := none
  version := none
  sourceSequence := none
  logicalTime := none

/-- A log for one event and an empty client. -/
def catchupStart : Catchup := ⟨.new 1, ⟨.new true ⟨10, true, 0⟩, none⟩⟩

def catchupRun : List CatchupStep :=
  [.append (catchupEvent "a"), .append (catchupEvent "b"), .exchange 1 500]

def catchupTrace (c : Catchup) : List CatchupStep → List (Catchup × CatchupStep)
  | [] => []
  | l :: ls => (c, l) :: catchupTrace (c.next l) ls

/-- Only the second event was in the log when the client asked. -/
def catchupEnd : Catchup := catchupRun.foldl Catchup.next catchupStart

theorem exec_catchupRun : (catchup 1).Exec (catchupTrace catchupStart catchupRun) catchupEnd := by
  have hstart : (catchup 1).Exec [] catchupStart := .nil ⟨rfl, rfl⟩
  have hfirst := hstart.snoc (l := .append (catchupEvent "a")) rfl
  have hsecond := hfirst.snoc (l := .append (catchupEvent "b")) rfl
  exact hsecond.snoc (l := .exchange 1 500) rfl

/-- At a further exchange the client has what was appended from the second event on. -/
theorem catchupEnd_loses_nothing :
    (∃ step ∈ catchupTrace catchupStart catchupRun ++ [(catchupEnd, .exchange 2 500)],
      announcesGap step = true) ∨
    ∃ asked ∈ catchupTrace catchupStart catchupRun ++ [(catchupEnd, .exchange 2 500)],
      asksFromStart asked = true ∧
      taken (catchupTrace catchupStart catchupRun) ++ (catchupEnd.response 500).events =
        (appendedEvents (catchupTrace catchupStart catchupRun)).drop
          asked.1.log.oldestSequence :=
  catchup_loses_nothing (by decide) exec_catchupRun (by decide) 2 500 (by decide)

theorem response_catchupEnd (maxEvents : Nat) : (catchupEnd.response maxEvents).events = [] := by
  have hbehind : catchupEnd.log.behind catchupEnd.client.cursor = [] := by decide
  have hne : catchupEnd.log.events ≠ [] := by decide
  unfold Catchup.response
  rw [querySince_of_ne_nil hne]
  show (catchupEnd.log.behind catchupEnd.client.cursor).take maxEvents = []
  rw [hbehind, List.take_nil]

theorem next_catchupEnd (now maxEvents : Nat) :
    catchupEnd.next (.exchange now maxEvents) = catchupEnd := by
  unfold Catchup.next CatchupClient.receive
  simp only [response_catchupEnd, applyAll_nil]
  rfl

theorem announcesGap_catchupEnd (now maxEvents : Nat) :
    announcesGap (catchupEnd, .exchange now maxEvents) = false := by
  have hne : catchupEnd.log.events ≠ [] := by decide
  have hgap : catchupEnd.client.cursor.any catchupEnd.log.evictedGap = false := by decide
  show ((catchupEnd.response maxEvents).snapshotRequired ||
    !(catchupEnd.response maxEvents).historyComplete) = false
  unfold Catchup.response
  rw [querySince_of_ne_nil hne]
  show (catchupEnd.client.cursor.any catchupEnd.log.evictedGap ||
    !!catchupEnd.client.cursor.any catchupEnd.log.evictedGap) = false
  rw [hgap]
  rfl

/-- Further exchanges leave everything as it is. -/
theorem steps_catchupEnd {tr : List (Catchup × CatchupStep)} {c : Catchup}
    (h : (catchup 1).Steps catchupEnd tr c)
    (hexchanges : ∀ step ∈ tr, ∃ now maxEvents, step.2 = .exchange now maxEvents) :
    c = catchupEnd ∧ ∀ step ∈ tr, step.1 = catchupEnd := by
  refine System.Steps.history (fun tr c =>
    (∀ step ∈ tr, ∃ now maxEvents, step.2 = CatchupStep.exchange now maxEvents) →
      c = catchupEnd ∧ ∀ step ∈ tr, step.1 = catchupEnd) ?_ ?_ h hexchanges
  · intro _
    exact ⟨rfl, List.forall_mem_nil _⟩
  · intro tr c l c' ih hstep hexchanges
    rw [forall_mem_snoc] at hexchanges
    obtain ⟨rfl, htr⟩ := ih hexchanges.1
    obtain ⟨now, maxEvents, rfl⟩ : ∃ now maxEvents, l = .exchange now maxEvents := hexchanges.2
    refine ⟨?_, forall_mem_snoc.mpr ⟨htr, rfl⟩⟩
    exact Eq.trans hstep (next_catchupEnd now maxEvents)

/-- The first event was dropped before the client asked. No answer announces a gap, and
    however often the client asks again, no answer holds the event. -/
theorem dropped_before_first_request :
    (catchup 1).Exec (catchupTrace catchupStart catchupRun) catchupEnd ∧
    appendedEvents (catchupTrace catchupStart catchupRun) = [catchupEvent "a", catchupEvent "b"] ∧
    ¬ ∃ tr c, (catchup 1).Steps catchupEnd tr c ∧
      (∀ step ∈ tr, ∃ now maxEvents, step.2 = .exchange now maxEvents) ∧
      ∃ step ∈ catchupTrace catchupStart catchupRun ++ tr,
        catchupEvent "a" ∈ receivedEvents step ∨ announcesGap step = true := by
  refine ⟨exec_catchupRun, by decide, ?_⟩
  rintro ⟨tr, c, hsteps, hexchanges, step, hstep, hfound⟩
  rcases List.mem_append.mp hstep with hbefore | hafter
  · have hnone : ∀ step ∈ catchupTrace catchupStart catchupRun,
        ¬ (catchupEvent "a" ∈ receivedEvents step ∨ announcesGap step = true) := by decide
    exact hnone step hbefore hfound
  · obtain ⟨now, maxEvents, hl⟩ := hexchanges step hafter
    have hstate := (steps_catchupEnd hsteps hexchanges).2 step hafter
    obtain ⟨c', l⟩ := step
    obtain rfl : c' = catchupEnd := hstate
    obtain rfl : l = .exchange now maxEvents := hl
    rcases hfound with hmem | hgap
    · have hnil : receivedEvents (catchupEnd, .exchange now maxEvents) = [] :=
        response_catchupEnd maxEvents
      rw [hnil] at hmem
      cases hmem
    · rw [announcesGap_catchupEnd] at hgap
      cases hgap

end Synvoid.BlockStore
