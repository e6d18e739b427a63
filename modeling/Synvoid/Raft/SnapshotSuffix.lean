import Synvoid.Raft.Snapshot

/-! # A snapshot and the rest of the log

    Applying a log entry by entry, and applying a part of it, moving the state
    by a snapshot and applying the rest there, should leave the same state. For
    the values it does. The other two parts of `applied_state` are not taken
    from the entries:

    * the term is the greatest one in a table `log_entries` of the state
      machine's own database, or 0: the log storage opens another file;
    * the membership is read from `snapshot_metadata`, where `apply` does not
      write one: `set_membership_raw` has no caller.

    `snapshot_suffix_iff` says for which logs this makes no difference.
-/

namespace Synvoid.Raft

open Synvoid.Framework

/-! ## Section 1: Applying entries -/

inductive RaftCommand where
  | set (ns : Namespace) (key : String) (value : Bytes) (sourceNodeId : Option String)
      (signature : Option Bytes)
  | delete (ns : Namespace) (key : String) (sourceNodeId : Option String)
      (signature : Option Bytes)
  deriving DecidableEq

namespace StateMachine

def set (sm : StateMachine) (ns : Namespace) (key : String) (value : Bytes) : StateMachine :=
  { sm with stateMachine := sm.stateMachine.upsert ⟨ns.asStr, key, value⟩ }

def delete (sm : StateMachine) (ns : Namespace) (key : String) : StateMachine :=
  { sm with stateMachine := sm.stateMachine.erase (ns.asStr, key) }

def setLastAppliedLogId (sm : StateMachine) (index : Nat) : StateMachine :=
  { sm with lastAppliedLogId := some index }

/-- Without the table the query fails, and there is no term. -/
def getLastLogTerm (sm : StateMachine) : Option Nat := sm.logEntries.bind Raft.getLastLogTerm

section membership

variable {M : Type} [Inhabited M] (codecs : SnapshotCodecs M)

def getAppliedMembership (sm : StateMachine) : Option (StoredMembership M) :=
  sm.lastMembership.bind codecs.membershipFromStr

def appliedState (sm : StateMachine) : Option LogId × StoredMembership M :=
  (sm.lastAppliedLogId.map fun index => ⟨⟨sm.getLastLogTerm.getD 0, 0⟩, index⟩,
    (sm.getAppliedMembership codecs).getD default)

def buildSnapshot (sm : StateMachine) : Option (SnapshotMeta M × Bytes) := do
  let snapshotData ← streamingSerialize codecs sm.stateMachine
  let lastApplied := sm.lastAppliedLogId.getD 0
  let lastLogTerm := sm.getLastLogTerm.getD 0
  let lastMembership := (sm.getAppliedMembership codecs).getD default
  return (⟨some ⟨⟨lastLogTerm, 0⟩, lastApplied⟩, lastMembership⟩, snapshotData)

end membership

/-- One round of the loop of `apply`. -/
def applyEntry {M : Type} (sm : StateMachine) (entry : Entry (EntryPayload RaftCommand M)) :
    StateMachine :=
  let sm := match entry.payload with
    | .normal (.set ns key value _ _) => sm.set ns key value
    | .normal (.delete ns key _ _) => sm.delete ns key
    | .blank => sm
    | .membership _ => sm
  sm.setLastAppliedLogId entry.logId.index

def apply {M : Type} (sm : StateMachine) (entries : List (Entry (EntryPayload RaftCommand M))) :
    StateMachine :=
  entries.foldl applyEntry sm

end StateMachine

/-! ## Section 2: The two ways -/

section suffix

variable {M : Type} [Inhabited M] (codecs : SnapshotCodecs M)

/-- Entries up to the cut, a snapshot, a new state machine, and the rest of
    the entries. -/
def viaSnapshot (source target : Option LogTable)
    (entries : List (Entry (EntryPayload RaftCommand M))) (cut : Nat) : Option StateMachine := do
  let sm := (StateMachine.new source).apply (entries.take cut)
  let (snapshotMeta, snapshot) ← sm.buildSnapshot codecs
  let (ok, installed) := installSnapshot codecs (.new target) snapshotMeta snapshot
  guard ok
  return installed.apply (entries.drop cut)

/-- The membership that an entry brings. -/
def membershipOf (entry : Entry (EntryPayload RaftCommand M)) : Option (StoredMembership M) :=
  match entry.payload with
  | .membership m => some ⟨some entry.logId, m⟩
  | _ => none

/-- The membership of the last entry that brings one. -/
def lastMembership (entries : List (Entry (EntryPayload RaftCommand M))) : StoredMembership M :=
  (entries.filterMap membershipOf).getLast?.getD default

def LogId.termIndex (id : LogId) : Nat × Nat := (id.leaderId.term, id.index)

/-- What `applied_state` must report. -/
def ReportsLast (sm : StateMachine) (entries : List (Entry (EntryPayload RaftCommand M))) : Prop :=
  (sm.appliedState codecs).1.map LogId.termIndex =
      entries.getLast?.map (fun entry => entry.logId.termIndex) ∧
    (sm.appliedState codecs).2 = lastMembership entries

/-- Both ways lead to the same values, and report the last entry. -/
def SnapshotAgrees (direct source target : Option LogTable)
    (entries : List (Entry (EntryPayload RaftCommand M))) (cut : Nat) : Prop :=
  ∃ sm, viaSnapshot codecs source target entries cut = some sm ∧
    sm.stateMachine = ((StateMachine.new direct).apply entries).stateMachine ∧
    ReportsLast codecs sm entries ∧
    ReportsLast codecs ((StateMachine.new direct).apply entries) entries

/-! ## Section 3: What applying leaves -/

omit [Inhabited M] in
theorem apply_fields (sm : StateMachine) (entries : List (Entry (EntryPayload RaftCommand M))) :
    (sm.apply entries).lastAppliedLogId =
        (entries.getLast?.map fun entry => entry.logId.index).or sm.lastAppliedLogId ∧
      (sm.apply entries).lastMembership = sm.lastMembership ∧
      (sm.apply entries).logEntries = sm.logEntries := by
  induction entries using List.reverseRecOn with
  | nil => simp [StateMachine.apply]
  | append_singleton entries entry ih =>
    obtain ⟨-, hmembership, hlog⟩ := ih
    have hlast : sm.apply (entries ++ [entry]) = (sm.apply entries).applyEntry entry := by
      simp [StateMachine.apply]
    rw [hlast]
    refine ⟨by simp [StateMachine.applyEntry, StateMachine.setLastAppliedLogId], ?_, ?_⟩
    · rw [← hmembership]
      unfold StateMachine.applyEntry
      split <;> rfl
    · rw [← hlog]
      unfold StateMachine.applyEntry
      split <;> rfl

omit [Inhabited M] in
theorem apply_append (sm : StateMachine)
    (entries entries' : List (Entry (EntryPayload RaftCommand M))) :
    sm.apply (entries ++ entries') = (sm.apply entries).apply entries' :=
  List.foldl_append

omit [Inhabited M] in
/-- The values after a log depend on the values before it only. -/
theorem stateMachine_apply {sm sm' : StateMachine} (h : sm.stateMachine = sm'.stateMachine)
    (entries : List (Entry (EntryPayload RaftCommand M))) :
    (sm.apply entries).stateMachine = (sm'.apply entries).stateMachine := by
  induction entries generalizing sm sm' with
  | nil => exact h
  | cons entry entries ih =>
    apply ih
    unfold StateMachine.applyEntry
    split <;>
      simp only [StateMachine.setLastAppliedLogId, StateMachine.set, StateMachine.delete, h]

variable {codecs}

/-- The default membership survives its way through the metadata. -/
def DefaultMembershipKept (codecs : SnapshotCodecs M) : Prop :=
  ∃ json, codecs.membershipToString default = some json ∧
    codecs.membershipFromStr json = some default

/-- A snapshot takes the values to the new state machine, with the index and
    the default membership. -/
theorem viaSnapshot_eq (target : Option LogTable) {source : Option LogTable}
    {entries : List (Entry (EntryPayload RaftCommand M))} {cut : Nat}
    (hfits : Fits codecs ((StateMachine.new source).apply (entries.take cut)).stateMachine)
    (hjson : DefaultMembershipKept codecs) :
    ∃ sm, viaSnapshot codecs source target entries cut = some sm ∧
      sm.stateMachine = ((StateMachine.new source).apply entries).stateMachine ∧
      sm.lastAppliedLogId = some ((entries.getLast?.map fun entry => entry.logId.index).getD 0) ∧
      sm.getAppliedMembership codecs = some default ∧ sm.logEntries = target := by
  obtain ⟨json, htext, hparse⟩ := hjson
  obtain ⟨bytes, hbytes, hinstall⟩ := streamingDeserializeAndApply_serialize hfits
  obtain ⟨hlast, hmembership, -⟩ := apply_fields (StateMachine.new source) (entries.take cut)
  have hnone : ((StateMachine.new source).apply (entries.take cut)).getAppliedMembership codecs =
      none := by
    rw [StateMachine.getAppliedMembership, hmembership]
    rfl
  generalize hsm : (StateMachine.new source).apply (entries.take cut) = sm at *
  -- the new state machine, before the rest is applied
  let installed : StateMachine :=
    { stateMachine := sm.stateMachine
      lastAppliedLogId := some (sm.lastAppliedLogId.getD 0)
      lastMembership := some json
      logEntries := target }
  have hdone : installSnapshot codecs (.new target)
      ⟨some ⟨⟨sm.getLastLogTerm.getD 0, 0⟩, sm.lastAppliedLogId.getD 0⟩, default⟩ bytes =
        (true, installed) := by
    simp [installSnapshot, hinstall, htext, installed, StateMachine.new]
  have hvia : viaSnapshot codecs source target entries cut =
      some (installed.apply (entries.drop cut)) := by
    simp [viaSnapshot, StateMachine.buildSnapshot, hsm, hbytes, hnone, hdone]
  obtain ⟨hlast', hmembership', hlog'⟩ := apply_fields installed (entries.drop cut)
  refine ⟨_, hvia, ?_, ?_, ?_, hlog'⟩
  · have hsame : installed.stateMachine = sm.stateMachine := rfl
    rw [stateMachine_apply hsame, ← hsm, ← apply_append, List.take_append_drop]
  · have hsplit : entries.getLast? =
        (entries.drop cut).getLast?.or (entries.take cut).getLast? := by
      rw [← List.getLast?_append, List.take_append_drop]
    have hbefore : installed.lastAppliedLogId =
        some (((entries.take cut).getLast?.map fun entry => entry.logId.index).getD 0) := by
      show some (sm.lastAppliedLogId.getD 0) = _
      rw [hlast]
      simp [StateMachine.new]
    rw [hlast', hsplit, hbefore]
    cases (entries.drop cut).getLast? <;> simp
  · rw [StateMachine.getAppliedMembership, hmembership']
    exact hparse

/-- No entry brings a membership. -/
def NoMembership (entries : List (Entry (EntryPayload RaftCommand M))) : Prop :=
  ∀ entry ∈ entries, ∀ m, entry.payload ≠ .membership m

theorem lastMembership_eq_default_iff (entries : List (Entry (EntryPayload RaftCommand M))) :
    lastMembership entries = default ↔ NoMembership entries := by
  constructor
  · intro hdefault entry hmem m hpayload
    -- a membership that is brought has an id, the default one has none
    have hbrought : (⟨some entry.logId, m⟩ : StoredMembership M) ∈ entries.filterMap membershipOf :=
      List.mem_filterMap.mpr ⟨entry, hmem, by simp [membershipOf, hpayload]⟩
    rcases hlast : (entries.filterMap membershipOf).getLast? with _ | stored
    · rw [List.getLast?_eq_none_iff.mp hlast] at hbrought
      cases hbrought
    · obtain ⟨e, -, hstored⟩ := List.mem_filterMap.mp (List.mem_of_getLast? hlast)
      obtain ⟨m', rfl⟩ : ∃ m', (⟨some e.logId, m'⟩ : StoredMembership M) = stored := by
        unfold membershipOf at hstored
        split at hstored
        · exact ⟨_, Option.some.inj hstored⟩
        · cases hstored
      rw [lastMembership, hlast] at hdefault
      cases congrArg StoredMembership.logId hdefault
  · intro hnone
    have hnil : entries.filterMap membershipOf = [] := by
      rw [List.filterMap_eq_nil_iff]
      intro entry hmem
      unfold membershipOf
      split
      · next m hpayload => exact absurd hpayload (hnone entry hmem m)
      · rfl
    rw [lastMembership, hnil]
    rfl

/-! ## Section 4: The result -/

/-- The term that a state machine with this log table reports. -/
def reportedTerm (logEntries : Option LogTable) : Nat :=
  (logEntries.bind Raft.getLastLogTerm).getD 0

/-- What a state machine with the index of the last entry and the default
    membership reports. -/
theorem reportsLast_iff {sm : StateMachine} {last : Entry (EntryPayload RaftCommand M)}
    {entries : List (Entry (EntryPayload RaftCommand M))} (hlast : entries.getLast? = some last)
    (hindex : sm.lastAppliedLogId = some last.logId.index)
    (hmembership : (sm.getAppliedMembership codecs).getD default = default) :
    ReportsLast codecs sm entries ↔
      reportedTerm sm.logEntries = last.logId.leaderId.term ∧ NoMembership entries := by
  unfold ReportsLast StateMachine.appliedState
  rw [hlast, hindex, hmembership, ← lastMembership_eq_default_iff, eq_comm (a := default)]
  simp [LogId.termIndex, reportedTerm, StateMachine.getLastLogTerm]

/-- **A snapshot and the rest of the log** leave the same values as the whole
    log. They report the last entry and the last membership, as the whole log
    does, if and only if there is an entry, none of them brings a membership,
    and the greatest term in the log tables of the two databases is that of the
    last entry. -/
theorem snapshot_suffix_iff (codecs : SnapshotCodecs M) (direct source target : Option LogTable)
    (entries : List (Entry (EntryPayload RaftCommand M))) (cut : Nat)
    (hfits : Fits codecs ((StateMachine.new source).apply (entries.take cut)).stateMachine)
    (hjson : DefaultMembershipKept codecs) :
    (∃ sm, viaSnapshot codecs source target entries cut = some sm ∧
      sm.stateMachine = ((StateMachine.new direct).apply entries).stateMachine) ∧
    (SnapshotAgrees codecs direct source target entries cut ↔
      NoMembership entries ∧ ∃ last, entries.getLast? = some last ∧
        reportedTerm direct = last.logId.leaderId.term ∧
        reportedTerm target = last.logId.leaderId.term) := by
  obtain ⟨sm, hvia, hvalues, hindex, hmembership, hlog⟩ := viaSnapshot_eq target hfits hjson
  have hsame : sm.stateMachine = ((StateMachine.new direct).apply entries).stateMachine := by
    rw [hvalues]
    apply stateMachine_apply
    rfl
  refine ⟨⟨sm, hvia, hsame⟩, ?_⟩
  have hagrees : SnapshotAgrees codecs direct source target entries cut ↔
      ReportsLast codecs sm entries ∧
        ReportsLast codecs ((StateMachine.new direct).apply entries) entries := by
    unfold SnapshotAgrees
    rw [hvia]
    simp [hsame]
  obtain ⟨hindex', hmembership', hlog'⟩ := apply_fields (StateMachine.new direct) entries
  rw [hagrees]
  rcases hlast : entries.getLast? with _ | last
  · -- the snapshot of an empty log has an entry 0
    refine iff_of_false ?_ (by simp)
    intro ⟨hreports, _⟩
    have hid := hreports.1
    rw [StateMachine.appliedState, hindex, hlast] at hid
    cases hid
  · rw [hlast] at hindex hindex'
    rw [reportsLast_iff hlast hindex (by rw [hmembership]; rfl),
      reportsLast_iff hlast hindex' (by rw [StateMachine.getAppliedMembership, hmembership']; rfl),
      hlog, hlog']
    simp only [Option.some.injEq, exists_eq_left', StateMachine.new]
    tauto

end suffix

/-! ### A cut inside a log -/

/-- The default membership as it is stored. -/
def defaultMembershipJson : String :=
  "\x7b\"log_id\":null,\"membership\":\x7b\"configs\":[],\"nodes\":\x7b\x7d\x7d\x7d"

/-- The codecs at the row of `orgRow` and the default membership. -/
def defaultCodecs : SnapshotCodecs Unit :=
  { orgCodecs with
    membershipToString := fun m => if m = default then some defaultMembershipJson else none
    membershipFromStr := fun json => if json = defaultMembershipJson then some default else none }

/-- The log table of `orgLog`: two entries of term 1 and one of term 2. -/
def orgLogTable : LogTable :=
  ⟨[⟨1, 1, [], none⟩, ⟨2, 1, [], none⟩, ⟨3, 2, [], none⟩], by simp⟩

/-- The value of `orgRow` is set, another one is set, and the first is deleted. -/
def orgLog : List (Entry (EntryPayload RaftCommand Unit)) :=
  [⟨⟨⟨1, 0⟩, 1⟩, .normal (.set .org "a" [1] none none)⟩,
    ⟨⟨⟨1, 0⟩, 2⟩, .normal (.set .org "b" [2] none none)⟩,
    ⟨⟨⟨2, 0⟩, 3⟩, .normal (.delete .org "a" none none)⟩]

/-- The snapshot has the first entry, and the other two are applied to it. -/
theorem orgLog_cut_agrees :
    SnapshotAgrees defaultCodecs (some orgLogTable) none (some orgLogTable) orgLog 1 := by
  have hfits : Fits defaultCodecs
      ((StateMachine.new none).apply (orgLog.take 1)).stateMachine := by
    refine ⟨by decide, ?_⟩
    intro row hrow
    obtain rfl : row = orgRow := List.mem_singleton.mp hrow
    exact ⟨[3, 111, 114, 103, 1, 97, 1, 1], rfl, rfl, by decide⟩
  have hjson : DefaultMembershipKept defaultCodecs := ⟨defaultMembershipJson, rfl, rfl⟩
  refine (snapshot_suffix_iff defaultCodecs (some orgLogTable) none (some orgLogTable) orgLog 1
    hfits hjson).2.mpr ⟨?_, _, rfl, by decide, by decide⟩
  intro entry hmem m hpayload
  simp only [orgLog, List.mem_cons, List.not_mem_nil, or_false] at hmem
  rcases hmem with rfl | rfl | rfl <;> cases hpayload

/-- A membership entry of term 1 is applied, and term 0 and no membership are
    reported. -/
theorem membership_not_reported :
    let entries : List (Entry (EntryPayload RaftCommand Unit)) := [⟨⟨⟨1, 0⟩, 1⟩, .membership ()⟩]
    ((StateMachine.new none).apply entries).appliedState defaultCodecs =
      (some ⟨⟨0, 0⟩, 1⟩, ⟨none, ()⟩) ∧
    lastMembership entries = ⟨some ⟨⟨1, 0⟩, 1⟩, ()⟩ ∧
    ¬ SnapshotAgrees defaultCodecs none none none entries 1 := by
  refine ⟨rfl, rfl, ?_⟩
  intro ⟨sm, _, _, _, hdirect⟩
  cases hdirect.1

end Synvoid.Raft
