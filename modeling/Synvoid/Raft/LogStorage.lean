import Synvoid.Framework.Transition
import Synvoid.Framework.SqlTable
import Synvoid.Mesh.DhtRecord

/-! # The Raft log in its table

    `GlobalRegistryLogStorage` keeps the Raft log in the table `log_entries`,
    one row for each entry under its index. What the table does not hold, it
    cannot give back: the id up to which the log was purged, and the node id of
    an entry's leader.

    The abstract log has its entries and the last purged id. Over every run of
    the calls that Raft makes, the table does what the abstract log does if and
    only if (`log_refines_iff`)

    * `truncate_after(None)` comes only while the log is empty,
    * `get_log_state` comes only while the log is empty and nothing was ever
      purged: it gives the first entry as the last purged one,
    * the entries that are read were proposed by leader 0.
-/

namespace Synvoid.Raft

open Synvoid.Framework
open Synvoid.Mesh (u64Max wrappingAdd asI64)

/-! ## Section 1: Entries -/

/-- A committed leader id of `leader_id_adv`. -/
structure LeaderId where
  term : Nat
  nodeId : Nat
  deriving DecidableEq

structure LogId where
  leaderId : LeaderId
  index : Nat
  deriving DecidableEq

inductive EntryPayload (D M : Type) where
  | blank
  | normal (data : D)
  | membership (membership : M)
  deriving DecidableEq

structure Entry (P : Type) where
  logId : LogId
  payload : P
  deriving DecidableEq

/-- `postcard::to_stdvec` and `postcard::from_bytes` at a type. -/
structure Postcard (α : Type) where
  toStdvec : α → Option Bytes
  fromBytes : Bytes → Option α

/-- With every value read back as it was written. -/
structure PostcardCodec (α : Type) extends Postcard α where
  roundTrip : ∀ a, ∃ bytes, toStdvec a = some bytes ∧ fromBytes bytes = some a

/-! ## Section 2: The table -/

/-- `v as u64` of an `i64`. -/
def asU64 (v : Int) : Nat := (v % 18446744073709551616).toNat

structure LogRow where
  id : Int
  term : Int
  payload : Bytes
  membership : Option String

/-- The table `log_entries`, whose key is the row number. -/
abbrev LogTable := SortedTable LogRow.id

def appendLogEntry (db : LogTable) (index term : Nat) (payload : Bytes)
    (membership : Option String) : Option LogTable :=
  db.insert { id := asI64 index, term := asI64 term, payload, membership }

def getFirstId (db : LogTable) : Option Nat := (db.rows.map LogRow.id).min?.map asU64

def getLastId (db : LogTable) : Option Nat := (db.rows.map LogRow.id).max?.map asU64

def getFirstLogTerm (db : LogTable) : Option Nat := (db.rows.map LogRow.term).min?.map asU64

def getLastLogTerm (db : LogTable) : Option Nat := (db.rows.map LogRow.term).max?.map asU64

def deleteRange (db : LogTable) (start stop : Nat) : LogTable :=
  db.delete fun row => asI64 start ≤ row.id && row.id < asI64 stop

/-- A negative limit is none. -/
def getLogEntriesPaged (db : LogTable) (start limit : Nat) : List (Nat × Nat × Bytes) :=
  let rows := db.rows.filter fun row => asI64 start ≤ row.id
  let page := if asI64 limit < 0 then rows else rows.take (asI64 limit).toNat
  page.map fun row => (asU64 row.id, asU64 row.term, row.payload)

/-! ## Section 3: The calls -/

/-- `std::ops::Bound<u64>`. -/
inductive Bound where
  | included (x : Nat)
  | excluded (x : Nat)
  | unbounded

def Bound.start : Bound → Nat
  | included x => x
  | excluded x => wrappingAdd x 1
  | unbounded => 0

def Bound.stop : Bound → Nat
  | included x => wrappingAdd x 1
  | excluded x => x
  | unbounded => u64Max

structure LogState where
  lastPurgedLogId : Option LogId
  lastLogId : Option LogId
  deriving DecidableEq

def getLogState (db : LogTable) : LogState :=
  let firstId := getFirstId db
  let lastId := getLastId db
  let firstLogTerm := (getFirstLogTerm db).getD 0
  let lastLogTerm := (getLastLogTerm db).getD 0
  { lastPurgedLogId := firstId.map fun id => ⟨⟨firstLogTerm, 0⟩, id⟩
    lastLogId := lastId.map fun id => ⟨⟨lastLogTerm, 0⟩, id⟩ }

def truncateAfter (db : LogTable) : Option LogId → LogTable
  | some id =>
      let lastId := (getLastId db).getD 0
      deleteRange db (wrappingAdd id.index 1) (wrappingAdd lastId 1)
  | none => db

def purge (db : LogTable) (logId : LogId) : LogTable :=
  deleteRange db 0 (wrappingAdd logId.index 1)

section payloads

variable {D M : Type} (codec : PostcardCodec (EntryPayload D M))

def tryGetLogEntries (db : LogTable) (startBound endBound : Bound) :
    List (Entry (EntryPayload D M)) :=
  let start := startBound.start
  let stop := endBound.stop
  let limit := stop - start
  (getLogEntriesPaged db start limit).filterMap fun (index, term, payload) =>
    if index ≥ start && index < stop then
      some ⟨⟨⟨term, 0⟩, index⟩, (codec.fromBytes payload).getD .blank⟩
    else none

/-- The rows up to the entry that fails stay in the table. -/
def append (db : LogTable) : List (Entry (EntryPayload D M)) → Bool × LogTable
  | [] => (true, db)
  | entry :: entries =>
      match codec.toStdvec entry.payload with
      | none => (false, db)
      | some payload =>
          match appendLogEntry db entry.logId.index entry.logId.leaderId.term payload none with
          | none => (false, db)
          | some db => append db entries

end payloads

inductive LogOp (P : Type) where
  | append (entries : List (Entry P))
  | truncateAfter (lastLogId : Option LogId)
  | purge (logId : LogId)
  | getLogState
  | tryGetLogEntries (startBound endBound : Bound)

inductive LogReply (P : Type) where
  | done (ok : Bool)
  | logState (state : LogState)
  | entries (entries : List (Entry P))

def LogOp.run {D M : Type} (codec : PostcardCodec (EntryPayload D M)) (db : LogTable) :
    LogOp (EntryPayload D M) → LogReply (EntryPayload D M) × LogTable
  | .append entries =>
      let (ok, db) := Raft.append codec db entries
      (.done ok, db)
  | .truncateAfter lastLogId => (.done true, Raft.truncateAfter db lastLogId)
  | .purge logId => (.done true, Raft.purge db logId)
  | .getLogState => (.logState (Raft.getLogState db), db)
  | .tryGetLogEntries startBound endBound =>
      (.entries (Raft.tryGetLogEntries codec db startBound endBound), db)

/-! ## Section 4: The abstract log -/

/-- What a Raft log is: the entries that are left, and the id up to which it
    was purged. -/
structure AbstractLog (P : Type) where
  entries : List (Entry P)
  lastPurged : Option LogId

namespace AbstractLog

variable {P : Type}

def empty : AbstractLog P := ⟨[], none⟩

/-- The id of the last entry, or of the last one that was purged. -/
def lastLogId (log : AbstractLog P) : Option LogId :=
  (log.entries.getLast?.map Entry.logId).or log.lastPurged

/-- The larger one of the purged ids. -/
def laterPurged (logId : LogId) : Option LogId → LogId
  | none => logId
  | some id => if id.index < logId.index then logId else id

end AbstractLog

/-- The indices that a lower bound admits. -/
def Bound.admitsFrom : Bound → Nat → Bool
  | included x, i => x ≤ i
  | excluded x, i => x < i
  | unbounded, _ => true

/-- The indices that an upper bound admits. -/
def Bound.admitsTo : Bound → Nat → Bool
  | included x, i => i ≤ x
  | excluded x, i => i < x
  | unbounded, _ => true

def LogOp.spec {P : Type} (log : AbstractLog P) : LogOp P → LogReply P × AbstractLog P
  | .append entries => (.done true, { log with entries := log.entries ++ entries })
  | .truncateAfter none => (.done true, { log with entries := [] })
  | .truncateAfter (some id) =>
      (.done true, { log with entries := log.entries.filter fun e => e.logId.index ≤ id.index })
  | .purge logId =>
      (.done true,
        { entries := log.entries.filter fun e => logId.index < e.logId.index
          lastPurged := some (AbstractLog.laterPurged logId log.lastPurged) })
  | .getLogState => (.logState ⟨log.lastPurged, log.lastLogId⟩, log)
  | .tryGetLogEntries startBound endBound =>
      (.entries (log.entries.filter fun e =>
        startBound.admitsFrom e.logId.index && endBound.admitsTo e.logId.index), log)

/-- The entries follow an id, one index after the other. -/
def Consecutive {P : Type} : Option LogId → List (Entry P) → Prop
  | _, [] => True
  | last, entry :: entries =>
      (∀ id, last = some id → entry.logId.index = id.index + 1) ∧
        Consecutive (some entry.logId) entries

/-- The calls as Raft issues them: entries are appended behind the last one. -/
def LogOp.Issued {P : Type} (log : AbstractLog P) : LogOp P → Prop
  | .append entries => Consecutive log.lastLogId entries
  | _ => True

/-- Table and abstract log side by side. -/
def logSystem {D M : Type} (codec : PostcardCodec (EntryPayload D M)) :
    System (LogTable × AbstractLog (EntryPayload D M)) (LogOp (EntryPayload D M)) where
  init := fun s => s = (.empty, .empty)
  step := fun s op s' => op.Issued s.2 ∧ s' = ((op.run codec s.1).2, (op.spec s.2).2)

/-! ## Section 5: When the table does what the log does -/

/-- The largest index that the table can hold with room for one more. -/
def indexLimit : Nat := 9223372036854775807

/-- A number of 64 bits, of which 63 are left for an index. -/
def LogOp.InRange {P : Type} : LogOp P → Prop
  | .append entries =>
      ∀ entry ∈ entries, entry.logId.index < indexLimit ∧ entry.logId.leaderId.term ≤ u64Max
  | .truncateAfter lastLogId => ∀ id, lastLogId = some id → id.index < indexLimit
  | .purge logId => logId.index < indexLimit
  | .getLogState => True
  | .tryGetLogEntries startBound endBound =>
      (∀ x, startBound = .excluded x → x < u64Max) ∧ (∀ x, endBound = .included x → x < u64Max) ∧
        ∀ x, endBound = .excluded x → x ≤ u64Max

/-- What the call must find in the log. -/
def LogOp.Served {P : Type} (log : AbstractLog P) : LogOp P → Prop
  | .append _ => True
  | .truncateAfter none => log.entries = []
  | .truncateAfter (some _) => True
  | .purge _ => True
  | .getLogState => log.entries = [] ∧ log.lastPurged = none
  | .tryGetLogEntries startBound endBound =>
      ∀ entry ∈ log.entries,
        (startBound.admitsFrom entry.logId.index && endBound.admitsTo entry.logId.index) = true →
        entry.logId.leaderId.nodeId = 0

/-- The indices increase, from behind the last purged one. -/
structure AbstractLog.WellFormed {P : Type} (log : AbstractLog P) : Prop where
  sorted : log.entries.Pairwise fun a b => a.logId.index < b.logId.index
  unpurged : ∀ id, log.lastPurged = some id → ∀ entry ∈ log.entries, id.index < entry.logId.index
  inRange : ∀ entry ∈ log.entries,
    entry.logId.index < indexLimit ∧ entry.logId.leaderId.term ≤ u64Max

section refinement

variable {D M : Type} (codec : PostcardCodec (EntryPayload D M))

def rowOf (entry : Entry (EntryPayload D M)) : LogRow :=
  { id := asI64 entry.logId.index
    term := asI64 entry.logId.leaderId.term
    payload := (codec.toStdvec entry.payload).getD []
    membership := none }

/-- The rows are those of the entries. -/
structure Represents (db : LogTable) (log : AbstractLog (EntryPayload D M)) : Prop where
  wellFormed : log.WellFormed
  rows : db.rows = log.entries.map (rowOf codec)

/-- The call answers as the abstract log does, and leaves its entries. -/
def Agrees (s : LogTable × AbstractLog (EntryPayload D M)) (op : LogOp (EntryPayload D M)) : Prop :=
  (op.run codec s.1).1 = (op.spec s.2).1 ∧ Represents codec (op.run codec s.1).2 (op.spec s.2).2

variable {codec}

/-! ### Numbers -/

theorem asI64_of_lt {n : Nat} (h : n ≤ indexLimit) : asI64 n = n := by
  unfold indexLimit at h
  unfold asI64
  rw [if_pos (by omega)]

theorem asU64_asI64 {n : Nat} (h : n ≤ u64Max) : asU64 (asI64 n) = n := by
  unfold u64Max at h
  unfold asU64 asI64
  split <;> omega

theorem wrappingAdd_one {n : Nat} (h : n < u64Max) : wrappingAdd n 1 = n + 1 := by
  unfold u64Max at h
  unfold wrappingAdd
  omega

theorem indexLimit_lt : indexLimit < u64Max := by decide

/-! ### The abstract log stays well formed -/

theorem AbstractLog.WellFormed.filter {P : Type} {log : AbstractLog P} (h : log.WellFormed)
    (p : Entry P → Bool) : AbstractLog.WellFormed { log with entries := log.entries.filter p } where
  sorted := h.sorted.filter p
  unpurged := fun id hid entry hmem => h.unpurged id hid entry (List.mem_filter.mp hmem).1
  inRange := fun entry hmem => h.inRange entry (List.mem_filter.mp hmem).1

/-- The next index is behind the entries and behind the purged ones. -/
theorem AbstractLog.WellFormed.lt_next {P : Type} {log : AbstractLog P} (h : log.WellFormed)
    {next : Nat} (hnext : ∀ id, log.lastLogId = some id → next = id.index + 1) :
    (∀ entry ∈ log.entries, entry.logId.index < next) ∧
      ∀ id, log.lastPurged = some id → id.index < next := by
  rcases List.eq_nil_or_concat log.entries with hnil | ⟨init, last, hsplit⟩
  · constructor
    · intro entry hmem
      rw [hnil] at hmem
      cases hmem
    · intro id hid
      have := hnext id (by simp [AbstractLog.lastLogId, hnil, hid])
      omega
  · rw [List.concat_eq_append] at hsplit
    have hlast := hnext last.logId (by simp [AbstractLog.lastLogId, hsplit])
    have hsorted := h.sorted
    rw [hsplit, List.pairwise_append] at hsorted
    constructor
    · intro entry hmem
      rw [hsplit, List.mem_append, List.mem_singleton] at hmem
      rcases hmem with hmem | rfl
      · have := hsorted.2.2 entry hmem last (by simp)
        omega
      · omega
    · intro id hid
      have := h.unpurged id hid last (by simp [hsplit])
      omega

theorem AbstractLog.WellFormed.snoc {P : Type} {log : AbstractLog P} (h : log.WellFormed)
    {entry : Entry P} (hnext : ∀ id, log.lastLogId = some id → entry.logId.index = id.index + 1)
    (hrange : entry.logId.index < indexLimit ∧ entry.logId.leaderId.term ≤ u64Max) :
    AbstractLog.WellFormed { log with entries := log.entries ++ [entry] } := by
  obtain ⟨hentries, hpurged⟩ := h.lt_next hnext
  constructor
  · show (log.entries ++ [entry]).Pairwise _
    rw [List.pairwise_append]
    refine ⟨h.sorted, List.pairwise_singleton _ _, ?_⟩
    intro e hmem e' hmem'
    rw [List.mem_singleton.mp hmem']
    exact hentries e hmem
  · intro id hid e hmem
    rcases List.mem_append.mp hmem with hmem | hmem
    · exact h.unpurged id hid e hmem
    · rw [List.mem_singleton.mp hmem]
      exact hpurged id hid
  · intro e hmem
    rcases List.mem_append.mp hmem with hmem | hmem
    · exact h.inRange e hmem
    · rw [List.mem_singleton.mp hmem]
      exact hrange

/-! ### Rows and entries -/

theorem rowOf_id {log : AbstractLog (EntryPayload D M)} (h : log.WellFormed)
    {entry : Entry (EntryPayload D M)} (hmem : entry ∈ log.entries) :
    (rowOf codec entry).id = entry.logId.index :=
  asI64_of_lt (h.inRange entry hmem).1.le

/-- A selection of rows is a selection of entries. -/
theorem Represents.filter_rows {db : LogTable} {log : AbstractLog (EntryPayload D M)}
    (h : Represents codec db log) {p : LogRow → Bool} {q : Entry (EntryPayload D M) → Bool}
    (hpq : ∀ entry ∈ log.entries, p (rowOf codec entry) = q entry) :
    db.rows.filter p = (log.entries.filter q).map (rowOf codec) := by
  rw [h.rows, List.filter_map]
  congr 1
  exact List.filter_congr hpq

theorem Represents.append {db : LogTable} {log : AbstractLog (EntryPayload D M)}
    (h : Represents codec db log) {entries : List (Entry (EntryPayload D M))}
    (hnext : Consecutive log.lastLogId entries) (hrange : (LogOp.append entries).InRange) :
    (Raft.append codec db entries).1 = true ∧
      Represents codec (Raft.append codec db entries).2
        { log with entries := log.entries ++ entries } := by
  induction entries generalizing db log with
  | nil => simpa [Raft.append] using h
  | cons entry entries ih =>
    obtain ⟨hfirst, hrest⟩ := hnext
    have hentry := hrange entry (by simp)
    obtain ⟨payload, hpayload, -⟩ := codec.roundTrip entry.payload
    have hrow : rowOf codec entry =
        ⟨asI64 entry.logId.index, asI64 entry.logId.leaderId.term, payload, none⟩ := by
      simp [rowOf, hpayload]
    have hlast : ∀ row ∈ db.rows, row.id < (rowOf codec entry).id := by
      intro row hmem
      rw [h.rows] at hmem
      obtain ⟨e, he, rfl⟩ := List.mem_map.mp hmem
      rw [rowOf_id h.wellFormed he]
      show (e.logId.index : Int) < asI64 entry.logId.index
      rw [asI64_of_lt hentry.1.le]
      exact_mod_cast (h.wellFormed.lt_next hfirst).1 e he
    obtain ⟨db', hinsert, hrows⟩ := SortedTable.insert_of_lt hlast
    have hrep : Represents codec db' { log with entries := log.entries ++ [entry] } := by
      refine ⟨h.wellFormed.snoc hfirst hentry, ?_⟩
      rw [hrows, h.rows]
      simp
    have happend : Raft.append codec db (entry :: entries) = Raft.append codec db' entries := by
      rw [Raft.append, hpayload]
      simp only [appendLogEntry, ← hrow, hinsert]
    have hlastId : AbstractLog.lastLogId { log with entries := log.entries ++ [entry] } =
        some entry.logId := by
      simp [AbstractLog.lastLogId]
    have hdone := ih hrep (by rw [hlastId]; exact hrest) fun e he => hrange e (by simp [he])
    rw [happend]
    simpa using hdone

/-- The largest row number is one of them. -/
theorem getLastId_spec {db : LogTable} {log : AbstractLog (EntryPayload D M)}
    (h : Represents codec db log) {last : Nat} (hlast : getLastId db = some last) :
    last < indexLimit ∧ ∀ entry ∈ log.entries, entry.logId.index ≤ last := by
  obtain ⟨v, hmax, rfl⟩ := Option.map_eq_some_iff.mp hlast
  obtain ⟨hmem, hle⟩ := List.max?_eq_some_iff.mp hmax
  rw [h.rows, List.map_map, List.mem_map] at hmem
  obtain ⟨e, he, rfl⟩ := hmem
  have hindex := (h.wellFormed.inRange e he).1
  have hvalue : asU64 ((LogRow.id ∘ rowOf codec) e) = e.logId.index :=
    asU64_asI64 (hindex.le.trans indexLimit_lt.le)
  rw [hvalue]
  refine ⟨hindex, ?_⟩
  intro entry hentry
  have := hle (rowOf codec entry).id (by
    rw [h.rows]
    exact List.mem_map_of_mem (List.mem_map_of_mem hentry))
  rw [rowOf_id h.wellFormed hentry, Function.comp_apply, rowOf_id h.wellFormed he] at this
  exact_mod_cast this

theorem Represents.deleteRange {db : LogTable} {log log' : AbstractLog (EntryPayload D M)}
    (h : Represents codec db log) (hwf : log'.WellFormed) {start stop : Nat}
    {keep : Entry (EntryPayload D M) → Bool} (hentries : log'.entries = log.entries.filter keep)
    (hstart : start ≤ indexLimit) (hstop : stop ≤ indexLimit)
    (hkeep : ∀ entry ∈ log.entries,
      keep entry = true ↔ ¬ (start ≤ entry.logId.index ∧ entry.logId.index < stop)) :
    Represents codec (Raft.deleteRange db start stop) log' := by
  refine ⟨hwf, ?_⟩
  rw [hentries]
  show db.rows.filter _ = _
  apply h.filter_rows
  intro entry hmem
  show (!(decide (asI64 start ≤ (rowOf codec entry).id) &&
    decide ((rowOf codec entry).id < asI64 stop))) = keep entry
  rw [rowOf_id h.wellFormed hmem, asI64_of_lt hstart, asI64_of_lt hstop, Bool.eq_iff_iff,
    hkeep entry hmem]
  simp only [Bool.not_and, Bool.or_eq_true, Bool.not_eq_true', decide_eq_false_iff_not]
  omega

theorem Represents.truncateAfter {db : LogTable} {log : AbstractLog (EntryPayload D M)}
    (h : Represents codec db log) {id : LogId} (hid : id.index < indexLimit) :
    Represents codec (Raft.truncateAfter db (some id))
      { log with entries := log.entries.filter fun e => e.logId.index ≤ id.index } := by
  have hend : (getLastId db).getD 0 < indexLimit ∧
      ∀ entry ∈ log.entries, entry.logId.index ≤ (getLastId db).getD 0 := by
    rcases hlast : getLastId db with _ | last
    · -- without a last row the table is empty
      have hnil : log.entries = [] := by
        simpa [getLastId, h.rows] using hlast
      exact ⟨by decide, by simp [hnil]⟩
    · exact getLastId_spec h hlast
  have hlimit := indexLimit_lt
  show Represents codec (Raft.deleteRange db _ _) _
  rw [wrappingAdd_one (by omega), wrappingAdd_one (by omega)]
  refine h.deleteRange (h.wellFormed.filter _) rfl (by omega) (by omega) ?_
  intro entry hmem
  have := hend.2 entry hmem
  simp only [decide_eq_true_eq]
  omega

theorem Represents.purge {db : LogTable} {log : AbstractLog (EntryPayload D M)}
    (h : Represents codec db log) {logId : LogId} (hid : logId.index < indexLimit) :
    Represents codec (Raft.purge db logId)
      { entries := log.entries.filter fun e => logId.index < e.logId.index
        lastPurged := some (AbstractLog.laterPurged logId log.lastPurged) } := by
  have hlimit := indexLimit_lt
  have hwf : AbstractLog.WellFormed
      { entries := log.entries.filter fun e => logId.index < e.logId.index
        lastPurged := some (AbstractLog.laterPurged logId log.lastPurged) } := by
    refine ⟨(h.wellFormed.filter _).sorted, ?_, (h.wellFormed.filter _).inRange⟩
    intro id hlater entry hmem
    obtain rfl := Option.some.inj hlater
    obtain ⟨hentry, habove⟩ := List.mem_filter.mp hmem
    rcases hpurged : log.lastPurged with _ | id
    · simpa [AbstractLog.laterPurged] using habove
    · unfold AbstractLog.laterPurged
      simp only
      split
      · simpa using habove
      · exact h.wellFormed.unpurged id hpurged entry hentry
  show Represents codec (Raft.deleteRange db _ _) _
  rw [wrappingAdd_one (by omega)]
  refine h.deleteRange hwf rfl (by omega) (by omega) ?_
  intro entry hmem
  simp only [decide_eq_true_eq]
  omega

/-- With an entry in the log, `get_log_state` gives an entry as purged that is
    not; without one, it knows nothing of a purge. -/
theorem getLogState_eq_iff {db : LogTable} {log : AbstractLog (EntryPayload D M)}
    (h : Represents codec db log) :
    Raft.getLogState db = ⟨log.lastPurged, log.lastLogId⟩ ↔
      log.entries = [] ∧ log.lastPurged = none := by
  constructor
  · intro hstate
    have hpurged : (Raft.getLogState db).lastPurgedLogId = log.lastPurged := by rw [hstate]
    have hnil : log.entries = [] := by
      by_contra hne
      have hids : db.rows.map LogRow.id ≠ [] := by simpa [h.rows] using hne
      obtain ⟨v, hmin⟩ := Option.isSome_iff_exists.mp (List.isSome_min?_iff.mpr hids)
      have hmem := List.min?_mem hmin
      rw [h.rows, List.map_map, List.mem_map] at hmem
      obtain ⟨e, he, rfl⟩ := hmem
      have hindex : asU64 ((LogRow.id ∘ rowOf codec) e) = e.logId.index :=
        asU64_asI64 ((h.wellFormed.inRange e he).1.le.trans indexLimit_lt.le)
      have hfirst : getFirstId db = some e.logId.index := by
        rw [getFirstId, hmin, Option.map_some, hindex]
      have hlt := h.wellFormed.unpurged _ (by
        rw [← hpurged]
        simp only [Raft.getLogState, hfirst]
        rfl) e he
      exact lt_irrefl _ hlt
    refine ⟨hnil, ?_⟩
    rw [← hpurged]
    simp [Raft.getLogState, getFirstId, h.rows, hnil]
  · intro ⟨hnil, hnone⟩
    simp [Raft.getLogState, getFirstId, getLastId, h.rows, hnil, hnone, AbstractLog.lastLogId]

/-! ### Reads -/

/-- The bounds of the code are those of the range. -/
theorem start_le_iff {b : Bound} (hb : ∀ x, b = .excluded x → x < u64Max) (i : Nat) :
    decide (b.start ≤ i) = b.admitsFrom i := by
  cases b with
  | included x => rfl
  | excluded x =>
    show decide (wrappingAdd x 1 ≤ i) = decide (x < i)
    rw [wrappingAdd_one (hb x rfl)]
    rfl
  | unbounded => simp [Bound.start, Bound.admitsFrom]

theorem lt_stop_iff {b : Bound} (hb : ∀ x, b = .included x → x < u64Max) {i : Nat}
    (hi : i < indexLimit) : decide (i < b.stop) = b.admitsTo i := by
  cases b with
  | included x =>
    show decide (i < wrappingAdd x 1) = decide (i ≤ x)
    rw [wrappingAdd_one (hb x rfl), decide_eq_decide]
    omega
  | excluded x => rfl
  | unbounded => exact decide_eq_true (hi.trans indexLimit_lt)

theorem stop_le {b : Bound} (hincluded : ∀ x, b = .included x → x < u64Max)
    (hexcluded : ∀ x, b = .excluded x → x ≤ u64Max) : b.stop ≤ u64Max := by
  cases b with
  | included x =>
    show wrappingAdd x 1 ≤ u64Max
    rw [wrappingAdd_one (hincluded x rfl)]
    exact hincluded x rfl
  | excluded x => exact hexcluded x rfl
  | unbounded => exact le_rfl

/-- The rows of a range. -/
def inRows (start stop : Nat) (row : LogRow) : Bool :=
  decide (start ≤ asU64 row.id) && decide (asU64 row.id < stop)

/-- Nothing of the range is cut off by the limit of the page. -/
theorem filter_page {rows : List LogRow} (hsorted : rows.Pairwise fun a b => a.id < b.id)
    (hrange : ∀ row ∈ rows, 0 ≤ row.id ∧ row.id < indexLimit) (start : Nat) {stop : Nat}
    (hstop : stop ≤ u64Max) :
    (if asI64 (stop - start) < 0 then rows.filter fun row => asI64 start ≤ row.id
      else (rows.filter fun row => asI64 start ≤ row.id).take (asI64 (stop - start)).toNat).filter
        (inRows start stop) = rows.filter (inRows start stop) := by
  have hU : ∀ row ∈ rows, (asU64 row.id : Int) = row.id ∧ asU64 row.id < indexLimit := by
    intro row hmem
    obtain ⟨hnonneg, hlt⟩ := hrange row hmem
    unfold indexLimit at hlt ⊢
    unfold asU64
    omega
  by_cases hstart : start ≤ indexLimit
  · rw [asI64_of_lt hstart]
    have hpart : (rows.filter fun row => (start : Int) ≤ row.id).filter (inRows start stop) =
        rows.filter (inRows start stop) := by
      rw [List.filter_filter]
      apply List.filter_congr
      intro row hmem
      have := (hU row hmem).1
      by_cases h : (start : Int) ≤ row.id
      · simp [h]
      · have hbelow : ¬ start ≤ asU64 row.id := by omega
        simp [inRows, h, hbelow]
    split
    · exact hpart
    · next hlimit =>
      have hsmall : stop - start ≤ indexLimit := by
        unfold u64Max at hstop
        unfold asI64 at hlimit
        unfold indexLimit
        split at hlimit <;> omega
      have hsel : ∀ row ∈ rows.filter fun row => (start : Int) ≤ row.id,
          inRows start stop row = decide (row.id < start + (stop - start : Nat)) := by
        intro row hmem
        obtain ⟨hrow, hle⟩ := List.mem_filter.mp hmem
        have hge : (start : Int) ≤ row.id := by simpa using hle
        have := (hU row hrow).1
        unfold inRows
        rw [← Bool.decide_and, decide_eq_decide]
        omega
      rw [asI64_of_lt hsmall, Int.toNat_natCast, ← hpart,
        List.filter_congr fun row hmem => hsel row (List.mem_of_mem_take hmem),
        List.filter_congr hsel]
      apply filter_take (hsorted.filter _)
      intro row hmem
      simpa using (List.mem_filter.mp hmem).2
  · -- the range starts behind every row
    have hnone : ∀ row ∈ rows, ¬ inRows start stop row = true := by
      intro row hmem hin
      have := (hU row hmem).2
      simp only [inRows, Bool.and_eq_true, decide_eq_true_eq] at hin
      omega
    rw [List.filter_eq_nil_iff.mpr hnone, List.filter_eq_nil_iff]
    intro row hmem
    apply hnone row
    split at hmem
    · exact List.mem_of_mem_filter hmem
    · exact List.mem_of_mem_filter (List.mem_of_mem_take hmem)

/-- An entry as it is read back. -/
def withoutLeader (entry : Entry (EntryPayload D M)) : Entry (EntryPayload D M) :=
  { entry with logId := ⟨⟨entry.logId.leaderId.term, 0⟩, entry.logId.index⟩ }

/-- A read returns the entries of the range, with their indices, terms and
    payloads. -/
theorem tryGetLogEntries_eq {db : LogTable} {log : AbstractLog (EntryPayload D M)}
    (h : Represents codec db log) {startBound endBound : Bound}
    (hrange : (LogOp.tryGetLogEntries (P := EntryPayload D M) startBound endBound).InRange) :
    Raft.tryGetLogEntries codec db startBound endBound =
      (log.entries.filter fun e =>
        startBound.admitsFrom e.logId.index && endBound.admitsTo e.logId.index).map
          withoutLeader := by
  have hids : ∀ row ∈ db.rows, 0 ≤ row.id ∧ row.id < indexLimit := by
    intro row hmem
    rw [h.rows] at hmem
    obtain ⟨e, he, rfl⟩ := List.mem_map.mp hmem
    rw [rowOf_id h.wellFormed he]
    have := (h.wellFormed.inRange e he).1
    omega
  have hread : Raft.tryGetLogEntries codec db startBound endBound =
      (db.rows.filter (inRows startBound.start endBound.stop)).map fun row =>
        ⟨⟨⟨asU64 row.term, 0⟩, asU64 row.id⟩, (codec.fromBytes row.payload).getD .blank⟩ := by
    rw [← filter_page db.sorted hids _ (stop_le hrange.2.1 hrange.2.2), ← List.filterMap_eq_map',
      List.filterMap_filter]
    unfold Raft.tryGetLogEntries getLogEntriesPaged
    simp only [List.filterMap_map]
    rfl
  have hsel : ∀ entry ∈ log.entries,
      inRows startBound.start endBound.stop (rowOf codec entry) =
        (startBound.admitsFrom entry.logId.index && endBound.admitsTo entry.logId.index) := by
    intro entry hmem
    have hindex := (h.wellFormed.inRange entry hmem).1
    have hback : asU64 (rowOf codec entry).id = entry.logId.index :=
      asU64_asI64 (hindex.le.trans indexLimit_lt.le)
    rw [inRows, hback, start_le_iff hrange.1, lt_stop_iff hrange.2.1 hindex]
  rw [hread, h.filter_rows hsel, List.map_map]
  apply List.map_congr_left
  intro entry hmem
  have hentry := h.wellFormed.inRange entry (List.mem_of_mem_filter hmem)
  obtain ⟨bytes, hbytes, hparsed⟩ := codec.roundTrip entry.payload
  simp [rowOf, withoutLeader, hbytes, hparsed, asU64_asI64 hentry.2,
    asU64_asI64 (hentry.1.le.trans indexLimit_lt.le)]

/-! ### One call, and a run -/

theorem represents_empty : Represents codec .empty .empty := by
  refine ⟨⟨.nil, ?_, ?_⟩, rfl⟩
  · intro id hid
    cases hid
  · intro entry hmem
    cases hmem

/-- One call does what the abstract log does if and only if it is served. -/
theorem agrees_iff {s : LogTable × AbstractLog (EntryPayload D M)}
    {op : LogOp (EntryPayload D M)} (h : Represents codec s.1 s.2) (hissued : op.Issued s.2)
    (hrange : op.InRange) : Agrees codec s op ↔ op.Served s.2 := by
  cases op with
  | append entries =>
    obtain ⟨hok, hrep⟩ := h.append hissued hrange
    refine iff_of_true ⟨?_, hrep⟩ trivial
    show LogReply.done (Raft.append codec s.1 entries).1 = .done true
    rw [hok]
  | truncateAfter lastLogId =>
    cases lastLogId with
    | none =>
      constructor
      · intro ⟨_, hrep⟩
        -- the rows stay, and the abstract log has none left
        have hrows : s.1.rows = [] := hrep.rows
        show s.2.entries = []
        simpa [h.rows] using hrows
      · intro hnil
        refine ⟨rfl, ?_⟩
        have hsame : (LogOp.truncateAfter none).spec s.2 = (.done true, s.2) := by
          rw [LogOp.spec, ← show s.2.entries = [] from hnil]
        rw [hsame]
        exact h
    | some id => exact iff_of_true ⟨rfl, h.truncateAfter (hrange id rfl)⟩ trivial
  | purge logId => exact iff_of_true ⟨rfl, h.purge hrange⟩ trivial
  | getLogState =>
    show (_ ∧ Represents codec s.1 s.2) ↔ s.2.entries = [] ∧ s.2.lastPurged = none
    rw [and_iff_left h, ← getLogState_eq_iff h]
    constructor
    · exact LogReply.logState.inj
    · exact congrArg LogReply.logState
  | tryGetLogEntries startBound endBound =>
    have hread := tryGetLogEntries_eq h hrange
    constructor
    · intro ⟨hreply, _⟩ entry hmem hin
      have heq := hread.symm.trans (LogReply.entries.inj hreply)
      rw [← List.map_id (List.filter _ _), List.map_map, List.map_inj_left] at heq
      have hentry : withoutLeader entry = entry := heq entry (List.mem_filter.mpr ⟨hmem, hin⟩)
      rw [← hentry]
      rfl
    · intro hleader
      refine ⟨?_, h⟩
      show LogReply.entries (Raft.tryGetLogEntries codec s.1 startBound endBound) = .entries _
      rw [hread, List.map_congr_left (g := id), List.map_id]
      intro entry hmem
      obtain ⟨hentry, hin⟩ := List.mem_filter.mp hmem
      have hzero := hleader entry hentry hin
      unfold withoutLeader
      rw [← hzero]
      rfl

/-- **The table refines the abstract log** in a run of issued calls, with
    indices below 2^63 - 1, if and only if every call of the run is served. -/
theorem log_refines_iff (codec : PostcardCodec (EntryPayload D M))
    {tr : List ((LogTable × AbstractLog (EntryPayload D M)) × LogOp (EntryPayload D M))}
    {s : LogTable × AbstractLog (EntryPayload D M)} (hexec : (logSystem codec).Exec tr s)
    (hrange : ∀ step ∈ tr, step.2.InRange) :
    (∀ step ∈ tr, Agrees codec step.1 step.2) ↔ ∀ step ∈ tr, step.2.Served step.1.2 := by
  refine System.Exec.steps_iff (fun s => Represents codec s.1 s.2) (fun _ op => op.InRange)
    (Agrees codec) (fun s op => op.Served s.2) ?_ ?_ hexec hrange
  · intro s hs
    rw [hs]
    exact represents_empty
  · intro s op s' h hop ⟨hissued, hs'⟩
    rw [hs']
    exact ⟨agrees_iff h hissued hop, fun hagrees => hagrees.2⟩

/-- A run that is continued by a call. -/
theorem exec_call
    {tr : List ((LogTable × AbstractLog (EntryPayload D M)) × LogOp (EntryPayload D M))}
    {s : LogTable × AbstractLog (EntryPayload D M)} (hexec : (logSystem codec).Exec tr s)
    (op : LogOp (EntryPayload D M)) (hissued : op.Issued s.2) :
    (logSystem codec).Exec (tr ++ [(s, op)]) ((op.run codec s.1).2, (op.spec s.2).2) :=
  hexec.snoc ⟨hissued, rfl⟩

end refinement

/-! ### A log with one entry -/

/-- The payloads without data: `Blank` is variant 0. -/
def blankCodec : PostcardCodec (EntryPayload Empty Empty) where
  toStdvec := fun _ => some [0]
  fromBytes := fun bytes => if bytes = [0] then some .blank else none
  roundTrip := by
    intro payload
    cases payload with
    | blank => exact ⟨[0], rfl, rfl⟩
    | normal data => exact data.elim
    | membership membership => exact membership.elim

/-- The entry 1 of term 5, proposed by leader 0. -/
def firstEntry : Entry (EntryPayload Empty Empty) := ⟨⟨⟨5, 0⟩, 1⟩, .blank⟩

/-- The run that appends the entry. -/
theorem exec_firstEntry :
    (logSystem blankCodec).Exec [((.empty, .empty), .append [firstEntry])]
      ((append blankCodec .empty [firstEntry]).2, ⟨[firstEntry], none⟩) := by
  have hinit : (logSystem blankCodec).init (.empty, .empty) := rfl
  refine exec_call (.nil hinit) (.append [firstEntry]) ⟨?_, trivial⟩
  intro id hid
  cases hid

/-- The entry is read back and cut off again. -/
theorem log_refines_first_entry :
    ∃ tr s, (logSystem blankCodec).Exec tr s ∧
      tr.map Prod.snd = [.append [firstEntry], .tryGetLogEntries .unbounded .unbounded,
        .truncateAfter (some ⟨⟨0, 0⟩, 0⟩)] ∧
      (∀ step ∈ tr, Agrees blankCodec step.1 step.2) ∧ s.1.rows = [] := by
  have hread := exec_call exec_firstEntry (.tryGetLogEntries .unbounded .unbounded) trivial
  have hcut := exec_call hread (.truncateAfter (some ⟨⟨0, 0⟩, 0⟩)) trivial
  refine ⟨_, _, hcut, rfl, ?_, rfl⟩
  refine (log_refines_iff blankCodec hcut ?_).mpr ?_
  · simp [LogOp.InRange, firstEntry, indexLimit, u64Max]
  · simp [LogOp.Served, LogOp.spec, firstEntry]

/-- With the entry in the log, `get_log_state` gives it as purged, and
    `truncate_after(None)` leaves it there. -/
theorem first_entry_given_as_purged :
    ∃ tr s, (logSystem blankCodec).Exec tr s ∧ (∀ step ∈ tr, step.2.InRange) ∧
      s.2 = ⟨[firstEntry], none⟩ ∧
      getLogState s.1 = ⟨some firstEntry.logId, some firstEntry.logId⟩ ∧
      ¬ Agrees blankCodec s .getLogState ∧
      (truncateAfter s.1 none).rows.map LogRow.id = [1] ∧
      ¬ Agrees blankCodec s (.truncateAfter none) := by
  have hstate : getLogState (append blankCodec .empty [firstEntry]).2 =
      ⟨some firstEntry.logId, some firstEntry.logId⟩ := by
    decide +kernel
  have hrow : (append blankCodec .empty [firstEntry]).2.rows.map LogRow.id = [1] := by
    decide +kernel
  refine ⟨_, _, exec_firstEntry, ?_, rfl, hstate, ?_, hrow, ?_⟩
  · simp [LogOp.InRange, firstEntry, indexLimit, u64Max]
  · intro ⟨hreply, _⟩
    have hpurged := LogReply.logState.inj (hreply.symm.trans (congrArg LogReply.logState hstate))
    cases congrArg LogState.lastPurgedLogId hpurged
  · intro ⟨_, hrep⟩
    have hnone : (append blankCodec .empty [firstEntry]).2.rows = [] := hrep.rows
    rw [hnone] at hrow
    cases hrow

end Synvoid.Raft
