import Synvoid.Framework.ByteReader
import Synvoid.Raft.LogStorage

/-! # Snapshots of the state machine

    The state machine keeps its values in the table `state_machine`. A snapshot
    is a magic number, the number of rows, and the rows, each with its length
    in front. `streaming_deserialize_and_apply` empties the table before it
    reads the first row, and inserts each row as it is read. Bytes without the
    magic number are read as JSON, and then the table is emptied only when all
    of it is parsed.

    So a snapshot that breaks off leaves the table with the rows up to there,
    and an incomplete snapshot is installed all or nothing only in the cases
    that `snapshot_install_iff` lists. A snapshot that the serializer writes
    comes back row by row.
-/

namespace Synvoid.Raft

open Synvoid.Framework

/-! ## Section 1: The state machine -/

inductive Namespace where
  | org
  | intel
  | revocation
  | authorizedGlobalNodes
  deriving DecidableEq

def Namespace.asStr : Namespace → String
  | org => "org"
  | intel => "intel"
  | revocation => "revocation"
  | authorizedGlobalNodes => "authorized_global_nodes"

/-- A row of `state_machine`, and an entry of a snapshot. -/
structure StreamingSnapshotEntry where
  ns : String
  key : String
  val : Bytes
  deriving DecidableEq

/-- The primary key of `state_machine`. -/
def StreamingSnapshotEntry.primaryKey (e : StreamingSnapshotEntry) : String × String :=
  (e.ns, e.key)

abbrev StateTable := RowTable StreamingSnapshotEntry.primaryKey

/-- A membership with the id of the entry that brought it. -/
structure StoredMembership (M : Type) where
  logId : Option LogId
  membership : M
  deriving DecidableEq

instance {M : Type} [Inhabited M] : Inhabited (StoredMembership M) := ⟨⟨none, default⟩⟩

/-- The database of a state machine. `lastAppliedLogId` and `lastMembership`
    are rows of `snapshot_metadata`; the table `log_entries` is there only if
    something else has made it. -/
structure StateMachine where
  stateMachine : StateTable
  lastAppliedLogId : Option Nat
  lastMembership : Option String
  logEntries : Option LogTable

/-- A new state machine beside a given log table. -/
def StateMachine.new (logEntries : Option LogTable) : StateMachine :=
  { stateMachine := .empty
    lastAppliedLogId := none
    lastMembership := none
    logEntries }

/-- The codecs of other packages: `postcard` for an entry of a snapshot,
    `serde_json` for a membership and for a list of entries. -/
structure SnapshotCodecs (M : Type) where
  entry : Postcard StreamingSnapshotEntry
  membershipToString : StoredMembership M → Option String
  membershipFromStr : String → Option (StoredMembership M)
  entriesFromSlice : Bytes → Option (List (Namespace × String × Bytes))

structure SnapshotMeta (M : Type) where
  lastLogId : Option LogId
  lastMembership : StoredMembership M

section snapshot

variable {M : Type} (codecs : SnapshotCodecs M)

/-! ## Section 2: Writing and reading a snapshot -/

def streamingSnapshotMagic : Nat := 0x53524D53

/-- One row, with its length as a `u32`. -/
def serializeEntry (e : StreamingSnapshotEntry) : Option Bytes :=
  (codecs.entry.toStdvec e).map fun bytes => leBytes 4 (bytes.length % 4294967296) ++ bytes

def serializeEntries : List StreamingSnapshotEntry → Option Bytes
  | [] => some []
  | e :: es => do
      let bytes ← serializeEntry codecs e
      let rest ← serializeEntries es
      return bytes ++ rest

def streamingSerialize (table : StateTable) : Option Bytes := do
  let entries ← serializeEntries codecs table.rows
  return leBytes 4 streamingSnapshotMagic ++ leBytes 8 table.rows.length ++ entries

/-- One row is read. -/
def readEntry (data : Bytes) : Option (StreamingSnapshotEntry × Bytes) := do
  let (lenBuf, data) ← readExact 4 data
  let (entryBuf, data) ← readExact (leValue lenBuf) data
  let entry ← codecs.entry.fromBytes entryBuf
  return (entry, data)

/-- The loop over the rows, each inserted as it is read. -/
def applyEntries : Nat → Bytes → StateTable → Bool × StateTable
  | 0, _, db => (true, db)
  | count + 1, data, db =>
      match readEntry codecs data with
      | none => (false, db)
      | some (entry, data) =>
          match db.insert entry with
          | none => (false, db)
          | some db => applyEntries count data db

def fallbackJsonInstall (data : Bytes) (db : StateTable) : Bool × StateTable :=
  match codecs.entriesFromSlice data with
  | none => (false, db)
  | some entries =>
      RowTable.empty.insertAll (entries.map fun (ns, key, val) => ⟨ns.asStr, key, val⟩)

def streamingDeserializeAndApply (data : Bytes) (db : StateTable) : Bool × StateTable :=
  match readExact 4 data with
  -- the failed read has used up the bytes
  | none => fallbackJsonInstall codecs [] db
  | some (magicBuf, rest) =>
      if leValue magicBuf ≠ streamingSnapshotMagic then fallbackJsonInstall codecs data db
      else
        match readExact 8 rest with
        | none => (false, db)
        | some (countBuf, rest) => applyEntries codecs (leValue countBuf) rest .empty

def installSnapshot (sm : StateMachine) (snapshotMeta : SnapshotMeta M) (snapshot : Bytes) :
    Bool × StateMachine :=
  let (ok, stateMachine) := streamingDeserializeAndApply codecs snapshot sm.stateMachine
  let sm := { sm with stateMachine }
  if !ok then (false, sm)
  else
    let sm := match snapshotMeta.lastLogId with
      | some logId => { sm with lastAppliedLogId := some logId.index }
      | none => sm
    match codecs.membershipToString snapshotMeta.lastMembership with
    | none => (false, sm)
    | some json => (true, { sm with lastMembership := some json })

/-! ## Section 3: Complete snapshots -/

/-- Rows that are read one after the other, and whether all are. -/
def decodeEntries : Nat → Bytes → List StreamingSnapshotEntry × Bool
  | 0, _ => ([], true)
  | count + 1, data =>
      match readEntry codecs data with
      | none => ([], false)
      | some (entry, data) =>
          let (entries, complete) := decodeEntries count data
          (entry :: entries, complete)

/-- The number of rows and the rest, if the bytes start as a streamed
    snapshot does. -/
def streamHeader (data : Bytes) : Option (Nat × Bytes) := do
  let (magicBuf, rest) ← readExact 4 data
  guard (leValue magicBuf = streamingSnapshotMagic)
  let (countBuf, rest) ← readExact 8 rest
  return (leValue countBuf, rest)

/-- The bytes that the fallback parses. -/
def jsonPart (data : Bytes) : Option Bytes :=
  match readExact 4 data with
  | none => some []
  | some (magicBuf, _) => if leValue magicBuf ≠ streamingSnapshotMagic then some data else none

/-- The whole snapshot can be decoded. -/
def Decodes (data : Bytes) : Prop :=
  (∃ count rest, streamHeader data = some (count, rest) ∧
    (decodeEntries codecs count rest).2 = true) ∨
  ∃ json entries, jsonPart data = some json ∧ codecs.entriesFromSlice json = some entries

/-- The rows up to the first key that has come before. -/
def distinctRows : List (String × String) → List StreamingSnapshotEntry →
    List StreamingSnapshotEntry
  | _, [] => []
  | keys, e :: es =>
      if e.primaryKey ∈ keys then [] else e :: distinctRows (keys ++ [e.primaryKey]) es

/-- The same rows, in any order. -/
def SameRows (t t' : StateTable) : Prop := ∀ row, row ∈ t.rows ↔ row ∈ t'.rows

/-- The rows are read back as they are written, and their lengths and their
    number fit into the fields in front of them. -/
def Fits (table : StateTable) : Prop :=
  table.rows.length < 256 ^ 8 ∧
    ∀ row ∈ table.rows, ∃ bytes, codecs.entry.toStdvec row = some bytes ∧
      codecs.entry.fromBytes bytes = some row ∧ bytes.length < 256 ^ 4

/-! ## Section 4: Bytes that break off -/

/-- The loop leaves the rows that it reads before the first failure. -/
theorem applyEntries_spec (count : Nat) (data : Bytes) (db : StateTable) :
    (applyEntries codecs count data db).2.rows =
        db.rows ++ distinctRows (db.rows.map StreamingSnapshotEntry.primaryKey)
          (decodeEntries codecs count data).1 ∧
    ((decodeEntries codecs count data).2 = false →
      (applyEntries codecs count data db).1 = false) := by
  induction count generalizing data db with
  | zero => simp [applyEntries, decodeEntries, distinctRows]
  | succ count ih =>
    rw [applyEntries, decodeEntries]
    rcases hread : readEntry codecs data with _ | ⟨entry, rest⟩
    · simp [distinctRows]
    · simp only [distinctRows]
      rcases hinsert : db.insert entry with _ | db'
      · rw [if_pos (RowTable.insert_eq_none.mp hinsert)]
        simp
      · have hnew : entry.primaryKey ∉ db.rows.map StreamingSnapshotEntry.primaryKey := by
          intro hmem
          rw [RowTable.insert_eq_none.mpr hmem] at hinsert
          cases hinsert
        obtain ⟨hrows, hfailed⟩ := ih rest db'
        rw [if_neg hnew]
        refine ⟨?_, hfailed⟩
        show (applyEntries codecs count rest db').2.rows = _
        rw [hrows, RowTable.rows_of_insert hinsert]
        simp

variable {codecs}

/-- Without the header of a streamed snapshot, the table stays or all of the
    JSON is parsed. -/
theorem streamingDeserializeAndApply_of_no_header {data : Bytes}
    (hheader : streamHeader data = none)
    (hincomplete : ¬ Decodes codecs data) (db : StateTable) :
    streamingDeserializeAndApply codecs data db = (false, db) := by
  have hjson : ∀ json, jsonPart data = some json →
      fallbackJsonInstall codecs json db = (false, db) := by
    intro json hpart
    rcases hparse : codecs.entriesFromSlice json with _ | entries
    · simp [fallbackJsonInstall, hparse]
    · exact absurd (Or.inr ⟨json, entries, hpart, hparse⟩) hincomplete
  unfold streamingDeserializeAndApply
  rcases hmagic : readExact 4 data with _ | ⟨magicBuf, rest⟩
  · exact hjson [] (by simp [jsonPart, hmagic])
  · simp only
    split
    · next hother => exact hjson data (by simp [jsonPart, hmagic, hother])
    · next hsame =>
      rcases hcount : readExact 8 rest with _ | ⟨countBuf, rest'⟩
      · rfl
      · simp [streamHeader, hmagic, hcount, not_not.mp hsame] at hheader

theorem streamingDeserializeAndApply_of_header {data : Bytes} {count : Nat} {rest : Bytes}
    (hheader : streamHeader data = some (count, rest)) (db : StateTable) :
    streamingDeserializeAndApply codecs data db = applyEntries codecs count rest .empty := by
  unfold streamingDeserializeAndApply
  unfold streamHeader at hheader
  rcases hmagic : readExact 4 data with _ | ⟨magicBuf, rest'⟩
  · simp [hmagic] at hheader
  · simp only [hmagic, Option.bind_eq_bind, Option.bind_some] at hheader
    by_cases hsame : leValue magicBuf = streamingSnapshotMagic
    · rcases hcount : readExact 8 rest' with _ | ⟨countBuf, rest''⟩
      · simp [hsame, hcount] at hheader
      · obtain ⟨rfl, rfl⟩ : leValue countBuf = count ∧ rest'' = rest := by
          simpa [hsame, hcount] using hheader
        simp [hsame, hcount]
    · simp [hsame] at hheader

/-- The table that `install_snapshot` leaves. -/
theorem stateMachine_installSnapshot (sm : StateMachine) (snapshotMeta : SnapshotMeta M)
    (data : Bytes) :
    (installSnapshot codecs sm snapshotMeta data).2.stateMachine =
      (streamingDeserializeAndApply codecs data sm.stateMachine).2 := by
  unfold installSnapshot
  rcases streamingDeserializeAndApply codecs data sm.stateMachine with ⟨ok, table⟩
  cases ok with
  | false => rfl
  | true =>
    simp only [Bool.not_true, Bool.false_eq_true, if_false]
    rcases snapshotMeta.lastLogId with _ | logId <;>
      rcases codecs.membershipToString snapshotMeta.lastMembership with _ | json <;> rfl

theorem installSnapshot_of_failed {sm : StateMachine} {data : Bytes}
    (h : (streamingDeserializeAndApply codecs data sm.stateMachine).1 = false)
    (snapshotMeta : SnapshotMeta M) : (installSnapshot codecs sm snapshotMeta data).1 = false := by
  simp [installSnapshot, h]

/-! ## Section 5: What the serializer writes -/

theorem readEntry_append {e : StreamingSnapshotEntry} {bytes : Bytes}
    (hparse : codecs.entry.fromBytes bytes = some e) (hfits : bytes.length < 256 ^ 4)
    (rest : Bytes) :
    readEntry codecs (leBytes 4 (bytes.length % 4294967296) ++ bytes ++ rest) = some (e, rest) := by
  have hlen : bytes.length % 4294967296 = bytes.length := Nat.mod_eq_of_lt hfits
  unfold readEntry
  rw [hlen, List.append_assoc, readExact_append (length_leBytes _ _)]
  simp only [Option.bind_eq_bind, Option.bind_some]
  rw [leValue_leBytes hfits, readExact_append rfl]
  simp [hparse]

/-- What is written for some rows is read back as these rows. -/
theorem decodeEntries_serializeEntries {rows : List StreamingSnapshotEntry}
    (hfits : ∀ row ∈ rows, ∃ bytes, codecs.entry.toStdvec row = some bytes ∧
      codecs.entry.fromBytes bytes = some row ∧ bytes.length < 256 ^ 4) :
    ∃ bytes, serializeEntries codecs rows = some bytes ∧
      decodeEntries codecs rows.length bytes = (rows, true) := by
  induction rows with
  | nil => exact ⟨[], rfl, rfl⟩
  | cons row rows ih =>
    obtain ⟨rest, hrest, hdecode⟩ := ih fun r hr => hfits r (by simp [hr])
    obtain ⟨bytes, hbytes, hparse, hlength⟩ := hfits row (by simp)
    refine ⟨leBytes 4 (bytes.length % 4294967296) ++ bytes ++ rest, ?_, ?_⟩
    · simp [serializeEntries, serializeEntry, hbytes, hrest]
    · have hread := readEntry_append hparse hlength rest
      rw [List.length_cons, decodeEntries, hread]
      simp only [hdecode]

/-- Rows with different keys are all inserted. -/
theorem applyEntries_of_nodup {count : Nat} {data : Bytes} {rows : List StreamingSnapshotEntry}
    (hdecode : decodeEntries codecs count data = (rows, true)) {db : StateTable}
    (hnodup : ((db.rows ++ rows).map StreamingSnapshotEntry.primaryKey).Nodup) :
    ∃ table, applyEntries codecs count data db = (true, table) ∧ table.rows = db.rows ++ rows := by
  have hloop : applyEntries codecs count data db = db.insertAll rows := by
    clear hnodup
    induction count generalizing data db rows with
    | zero =>
      obtain rfl : rows = [] := by simpa [decodeEntries] using hdecode.symm
      rfl
    | succ count ih =>
      rw [decodeEntries] at hdecode
      rcases hread : readEntry codecs data with _ | ⟨entry, rest⟩
      · simp [hread] at hdecode
      · simp only [hread, Prod.mk.injEq] at hdecode
        obtain ⟨rfl, hcomplete⟩ := hdecode
        rw [applyEntries, hread, RowTable.insertAll]
        simp only
        rcases db.insert entry with _ | db'
        · rfl
        · exact ih (Prod.ext rfl hcomplete)
  rw [hloop]
  exact RowTable.insertAll_of_nodup hnodup

/-- A table comes back from its snapshot. -/
theorem streamingDeserializeAndApply_serialize {table : StateTable} (hfits : Fits codecs table) :
    ∃ bytes, streamingSerialize codecs table = some bytes ∧
      ∀ db, streamingDeserializeAndApply codecs bytes db = (true, table) := by
  obtain ⟨hcount, hrows⟩ := hfits
  obtain ⟨entries, hentries, hdecode⟩ := decodeEntries_serializeEntries hrows
  have hheader : streamHeader (leBytes 4 streamingSnapshotMagic ++ leBytes 8 table.rows.length ++
      entries) = some (table.rows.length, entries) := by
    unfold streamHeader
    rw [List.append_assoc, readExact_append (length_leBytes _ _)]
    simp only [Option.bind_eq_bind, Option.bind_some]
    rw [leValue_leBytes (by decide), readExact_append (length_leBytes _ _)]
    simp [leValue_leBytes hcount]
  refine ⟨_, by simp only [streamingSerialize, hentries]; rfl, ?_⟩
  intro db
  have hnodup : (((RowTable.empty : StateTable).rows ++ table.rows).map
      StreamingSnapshotEntry.primaryKey).Nodup := table.nodup
  obtain ⟨table', happly, hsame⟩ := applyEntries_of_nodup hdecode hnodup
  rw [streamingDeserializeAndApply_of_header hheader, happly]
  exact Prod.ext rfl (RowTable.ext_rows hsame)

/-- **When a snapshot is installed all or nothing.** An incomplete snapshot is
    refused with the table unchanged if and only if it lacks the header of a
    streamed snapshot, or the table has just the rows that are read before the
    failure. A snapshot of a table whose rows fit is installed as this table. -/
theorem snapshot_install_iff (codecs : SnapshotCodecs M) :
    (∀ sm snapshotMeta data,
      ((¬ Decodes codecs data →
          (installSnapshot codecs sm snapshotMeta data).1 = false ∧
          SameRows (installSnapshot codecs sm snapshotMeta data).2.stateMachine sm.stateMachine) ↔
        Decodes codecs data ∨ streamHeader data = none ∨
          ∃ count rest, streamHeader data = some (count, rest) ∧
            ∀ row, row ∈ distinctRows [] (decodeEntries codecs count rest).1 ↔
              row ∈ sm.stateMachine.rows)) ∧
    ∀ table, Fits codecs table → ∃ bytes, streamingSerialize codecs table = some bytes ∧
      ∀ db, streamingDeserializeAndApply codecs bytes db = (true, table) := by
  constructor
  · intro sm snapshotMeta data
    rw [stateMachine_installSnapshot]
    by_cases hdecodes : Decodes codecs data
    · simp [hdecodes]
    · simp only [hdecodes, not_false_eq_true, forall_const, false_or]
      rcases hheader : streamHeader data with _ | ⟨count, rest⟩
      · have hkept := streamingDeserializeAndApply_of_no_header hheader hdecodes sm.stateMachine
        refine iff_of_true ⟨?_, ?_⟩ (Or.inl rfl)
        · exact installSnapshot_of_failed (by rw [hkept]) snapshotMeta
        · rw [hkept]
          exact fun row => Iff.rfl
      · have hincomplete : (decodeEntries codecs count rest).2 = false := by
          by_contra hcomplete
          exact hdecodes (Or.inl ⟨count, rest, hheader, by simpa using hcomplete⟩)
        have hloop : streamingDeserializeAndApply codecs data sm.stateMachine =
            applyEntries codecs count rest .empty :=
          streamingDeserializeAndApply_of_header hheader sm.stateMachine
        obtain ⟨hrows, hfailed⟩ := applyEntries_spec codecs count rest .empty
        have hstopped : (installSnapshot codecs sm snapshotMeta data).1 = false :=
          installSnapshot_of_failed (by rw [hloop, hfailed hincomplete]) snapshotMeta
        rw [hloop, SameRows, hrows]
        simp [hstopped, RowTable.empty]
  · intro table hfits
    exact streamingDeserializeAndApply_serialize hfits

end snapshot

/-! ### A table with one row -/

def orgRow : StreamingSnapshotEntry := ⟨"org", "a", [1]⟩

def orgTable : StateTable := ⟨[orgRow], by decide⟩

/-- The codecs at this row. -/
def orgCodecs : SnapshotCodecs Unit where
  entry :=
    { toStdvec := fun e => if e = orgRow then some [3, 111, 114, 103, 1, 97, 1, 1] else none
      fromBytes := fun bytes =>
        if bytes = [3, 111, 114, 103, 1, 97, 1, 1] then some orgRow else none }
  membershipToString := fun _ => none
  membershipFromStr := fun _ => none
  entriesFromSlice := fun _ => none

/-- The table comes back from its snapshot. -/
theorem org_table_installed :
    ∃ bytes, streamingSerialize orgCodecs orgTable = some bytes ∧
      streamingDeserializeAndApply orgCodecs bytes .empty = (true, orgTable) := by
  have hfits : Fits orgCodecs orgTable := by
    refine ⟨by decide, ?_⟩
    intro row hrow
    obtain rfl : row = orgRow := by simpa [orgTable] using hrow
    exact ⟨[3, 111, 114, 103, 1, 97, 1, 1], rfl, rfl, by decide⟩
  obtain ⟨bytes, hbytes, hinstall⟩ := (snapshot_install_iff orgCodecs).2 orgTable hfits
  exact ⟨bytes, hbytes, hinstall .empty⟩

/-- A snapshot that announces one row and breaks off empties the table. -/
theorem truncated_snapshot_empties_table :
    let data := leBytes 4 streamingSnapshotMagic ++ leBytes 8 1
    let sm := { StateMachine.new none with stateMachine := orgTable }
    ¬ Decodes orgCodecs data ∧
    (installSnapshot orgCodecs sm ⟨none, default⟩ data).1 = false ∧
    (installSnapshot orgCodecs sm ⟨none, default⟩ data).2.stateMachine.rows = [] ∧
    ¬ SameRows (installSnapshot orgCodecs sm ⟨none, default⟩ data).2.stateMachine
      sm.stateMachine := by
  intro data sm
  have hrows : (installSnapshot orgCodecs sm ⟨none, default⟩ data).2.stateMachine.rows = [] := by
    decide +kernel
  refine ⟨?_, by decide +kernel, hrows, ?_⟩
  · rintro (⟨count, rest, hheader, hcomplete⟩ | ⟨json, entries, hpart, hparse⟩)
    · have hone : streamHeader data = some (1, []) := by decide +kernel
      obtain ⟨rfl, rfl⟩ : 1 = count ∧ [] = rest := by simpa [hone] using hheader
      cases hcomplete
    · cases hparse
  · intro hsame
    have hmem := (hsame orgRow).mpr (List.mem_singleton_self _)
    rw [hrows] at hmem
    cases hmem

end Synvoid.Raft
