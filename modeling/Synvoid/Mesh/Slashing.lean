import Mathlib.Data.List.DropRight
import Synvoid.Framework.Table
import Synvoid.Framework.Transition
import Synvoid.Mesh.QuorumProof

/-! # Slashing by the committee of global nodes

    `StakeManager` keeps the stake of each node and the votes against it. A
    vote is recorded once for each voter, and the target is slashed when there
    are two thirds of the number of global nodes, rounded down, and at least
    one. This is less than `required_signatures_for`, which asks for one more
    (`one_vote_of_two_slashes`).

    A target that becomes slashed has that many distinct voters against it in
    the run so far (`committee_slash_quorum`). The voters are not compared with
    the registered nodes, and the votes are kept when a node is no longer
    slashed; in runs where no vote comes from elsewhere and no node is unslashed
    they are registered global nodes.
-/

namespace Synvoid.Mesh

open Synvoid.Framework

/-! ## Section 1: Stakes and votes -/

structure MeshNodeRole where
  bits : UInt8
  deriving DecidableEq

namespace MeshNodeRole

def global : MeshNodeRole := ⟨0b010⟩

def edge : MeshNodeRole := ⟨0b001⟩

def isGlobal (role : MeshNodeRole) : Bool := role.bits &&& 0b010 ≠ 0

end MeshNodeRole

structure StakeConfig where
  stakeGracePeriodSecs : Nat
  stakeRecoveryPeriodSecs : Nat
  slashingEnabled : Bool

structure NodeStake where
  nodeId : String
  reputation : Int
  role : MeshNodeRole
  isActive : Bool
  isSlashed : Bool
  slashedAt : Option Nat
  lastUpdate : Nat
  gracePeriodEndsAt : Option Nat

inductive SlashReason where
  | invalidRecordSignature
  | dhtPoisoning
  | sybilAttack
  | eclipseAttack
  | repeatedMisbehavior
  | globalNodeSlash (reason : String) (evidence : List String)

structure SlashEvent where
  nodeId : String
  reason : SlashReason
  slashedAt : Nat
  slashedBy : String
  evidence : List String
  recoveryAvailableAt : Option Nat

structure GlobalSlashVote where
  voterNodeId : String
  targetNodeId : String
  reason : SlashReason
  timestamp : Nat

structure StakeManager where
  config : StakeConfig
  localNodeId : String
  isGlobal : Bool
  stakes : Table String NodeStake
  slashEvents : List SlashEvent
  globalSlashVotes : Table String (List GlobalSlashVote)

namespace NodeStake

def new (nodeId : String) (reputation : Int) (role : MeshNodeRole) (now : Nat) : NodeStake :=
  { nodeId, reputation, role
    isActive := false
    isSlashed := false
    slashedAt := none
    lastUpdate := now
    gracePeriodEndsAt := none }

def update (stake : NodeStake) (reputation : Int) (role : MeshNodeRole) (now : Nat) : NodeStake :=
  { stake with reputation, role, lastUpdate := now }

end NodeStake

/-! ## Section 2: The manager -/

namespace StakeManager

def new (config : StakeConfig) (localNodeId : String) (isGlobal : Bool) : StakeManager :=
  { config, localNodeId, isGlobal
    stakes := ∅
    slashEvents := []
    globalSlashVotes := ∅ }

def registerNode (m : StakeManager) (nodeId : String) (reputation : Int) (role : MeshNodeRole)
    (callerVerifiedId : Option String) (now : Nat) : StakeManager :=
  if callerVerifiedId.any (fun caller => nodeId ≠ caller) then m
  else
    match m.stakes.lookup nodeId with
    | some existing =>
        { m with stakes := m.stakes.insert nodeId (existing.update reputation role now) }
    | none =>
        let stake := { NodeStake.new nodeId reputation role now with
          gracePeriodEndsAt := some (now + m.config.stakeGracePeriodSecs) }
        { m with stakes := m.stakes.insert nodeId stake }

def slashNode (m : StakeManager) (nodeId : String) (reason : SlashReason) (slashedBy : String)
    (now : Nat) : Option SlashEvent × StakeManager :=
  if !m.config.slashingEnabled then (none, m)
  else
    match m.stakes.lookup nodeId with
    | none => (none, m)
    | some stake =>
        if stake.isSlashed then (none, m)
        else
          let stake := { stake with isSlashed := true, isActive := false, slashedAt := some now }
          let event : SlashEvent :=
            { nodeId, reason, slashedBy
              slashedAt := now
              evidence := []
              recoveryAvailableAt :=
                if m.config.stakeRecoveryPeriodSecs > 0 then
                  some (now + m.config.stakeRecoveryPeriodSecs)
                else none }
          (some event,
            { m with
              stakes := m.stakes.insert nodeId stake
              slashEvents := m.slashEvents ++ [event] })

def attemptRecovery (m : StakeManager) (nodeId : String) (now : Nat) : Bool × StakeManager :=
  match m.stakes.lookup nodeId with
  | none => (false, m)
  | some stake =>
      if stake.isSlashed then
        match stake.slashedAt with
        | none => (false, m)
        | some recoveryAt =>
            if now ≥ recoveryAt + m.config.stakeRecoveryPeriodSecs then
              let stake := { stake with
                isSlashed := false
                reputation := 0
                gracePeriodEndsAt := some (now + m.config.stakeGracePeriodSecs) }
              (true, { m with stakes := m.stakes.insert nodeId stake })
            else (false, m)
      else (false, m)

def getGlobalNodeCount (m : StakeManager) : Nat :=
  m.stakes.entries.countP fun e => e.2.role.isGlobal

/-- The number of votes that slash a node. -/
def committeeQuorum (globalCount : Nat) : Nat := max (globalCount * 2 / 3) 1

/-- The votes recorded against a node. -/
def votesAgainst (m : StakeManager) (nodeId : String) : List GlobalSlashVote :=
  (m.globalSlashVotes.lookup nodeId).getD []

/-- A vote is recorded, unless there is one of this voter. -/
def recordVote (entry : List GlobalSlashVote) (vote : GlobalSlashVote) : List GlobalSlashVote :=
  if !entry.any (fun v => v.voterNodeId = vote.voterNodeId) then entry ++ [vote] else entry

def processGlobalSlashVote (m : StakeManager) (vote : GlobalSlashVote) (now : Nat) : StakeManager :=
  let entry := recordVote (m.votesAgainst vote.targetNodeId) vote
  let m := { m with globalSlashVotes := m.globalSlashVotes.insert vote.targetNodeId entry }
  if entry.length ≥ committeeQuorum m.getGlobalNodeCount then
    match entry.head? with
    | some first => (m.slashNode vote.targetNodeId first.reason "global_committee" now).2
    | none => m
  else m

/-- The vote of the local node. -/
def localVote (m : StakeManager) (targetNodeId : String) (reason : SlashReason) (now : Nat) :
    GlobalSlashVote :=
  { voterNodeId := m.localNodeId, targetNodeId, reason, timestamp := now }

def submitGlobalSlashVote (m : StakeManager) (targetNodeId : String) (reason : SlashReason)
    (now : Nat) : StakeManager :=
  if !m.isGlobal then m else m.processGlobalSlashVote (m.localVote targetNodeId reason now) now

def isSlashed (m : StakeManager) (nodeId : String) : Bool :=
  ((m.stakes.lookup nodeId).map NodeStake.isSlashed).getD false

def manualUnslash (m : StakeManager) (nodeId : String) : StakeManager :=
  match m.stakes.lookup nodeId with
  | none => m
  | some stake =>
      if stake.isSlashed then
        let stake := { stake with isSlashed := false, slashedAt := none, isActive := true }
        { m with
          stakes := m.stakes.insert nodeId stake
          slashEvents := m.slashEvents.filter fun e => e.nodeId ≠ nodeId }
      else m

end StakeManager

/-! ## Section 3: Runs -/

inductive StakeOp where
  | registerNode (nodeId : String) (reputation : Int) (role : MeshNodeRole)
      (callerVerifiedId : Option String) (now : Nat)
  | processGlobalSlashVote (vote : GlobalSlashVote) (now : Nat)
  | submitGlobalSlashVote (targetNodeId : String) (reason : SlashReason) (now : Nat)
  | attemptRecovery (nodeId : String) (now : Nat)
  | manualUnslash (nodeId : String)

namespace StakeOp

def run (m : StakeManager) : StakeOp → StakeManager
  | registerNode nodeId reputation role callerVerifiedId now =>
      m.registerNode nodeId reputation role callerVerifiedId now
  | processGlobalSlashVote vote now => m.processGlobalSlashVote vote now
  | submitGlobalSlashVote targetNodeId reason now => m.submitGlobalSlashVote targetNodeId reason now
  | attemptRecovery nodeId now => (m.attemptRecovery nodeId now).2
  | manualUnslash nodeId => m.manualUnslash nodeId

/-- The vote that an operation processes. -/
def cast (m : StakeManager) : StakeOp → Option GlobalSlashVote
  | processGlobalSlashVote vote _ => some vote
  | submitGlobalSlashVote targetNodeId reason now =>
      if m.isGlobal then some (m.localVote targetNodeId reason now) else none
  | _ => none

end StakeOp

def stakeSystem : System StakeManager StakeOp where
  init := fun m => ∃ config localNodeId isGlobal, m = .new config localNodeId isGlobal
  step := fun m op m' => m' = op.run m

/-! ## Section 4: What an operation does -/

namespace StakeManager

variable {m m' : StakeManager}

theorem isSlashed_of_insert {k : String} {stake : NodeStake}
    (h : m'.stakes = m.stakes.insert k stake)
    (nodeId : String) :
    m'.isSlashed nodeId = if nodeId = k then stake.isSlashed else m.isSlashed nodeId := by
  unfold isSlashed
  rw [h, Table.lookup_insert_eq]
  split <;> rfl

/-- Only the stake of one node is another, and this is not slashed by it. -/
theorem isSlashed_of_insert_le {k : String} {stake : NodeStake}
    (h : m'.stakes = m.stakes.insert k stake)
    (hstake : stake.isSlashed = true → m.isSlashed k = true)
    {nodeId : String} (hslashed : m'.isSlashed nodeId = true) : m.isSlashed nodeId = true := by
  rw [isSlashed_of_insert h] at hslashed
  split at hslashed
  · next heq =>
    rw [heq]
    exact hstake hslashed
  · exact hslashed

theorem isSlashed_of_lookup {nodeId : String} {stake : NodeStake}
    (h : m.stakes.lookup nodeId = some stake) : m.isSlashed nodeId = stake.isSlashed := by
  rw [isSlashed, h]
  rfl

/-- The votes stay, and no node becomes slashed. -/
def Quiet (m m' : StakeManager) : Prop :=
  m'.globalSlashVotes = m.globalSlashVotes ∧
    ∀ nodeId, m'.isSlashed nodeId = true → m.isSlashed nodeId = true

theorem Quiet.refl (m : StakeManager) : m.Quiet m := ⟨rfl, fun _ h => h⟩

theorem registerNode_quiet (m : StakeManager) (nodeId : String) (reputation : Int)
    (role : MeshNodeRole) (callerVerifiedId : Option String) (now : Nat) :
    m.Quiet (m.registerNode nodeId reputation role callerVerifiedId now) := by
  unfold registerNode
  split
  · exact .refl m
  · split
    · next existing hlookup =>
      refine ⟨rfl, fun _ => isSlashed_of_insert_le rfl fun hstake => ?_⟩
      rw [isSlashed_of_lookup hlookup]
      exact hstake
    · exact ⟨rfl, fun _ => isSlashed_of_insert_le rfl fun hstake => by cases hstake⟩

theorem attemptRecovery_quiet (m : StakeManager) (nodeId : String) (now : Nat) :
    m.Quiet (m.attemptRecovery nodeId now).2 := by
  unfold attemptRecovery
  split
  · exact .refl m
  · split
    · split
      · exact .refl m
      · split
        · exact ⟨rfl, fun _ => isSlashed_of_insert_le rfl fun hstake => by cases hstake⟩
        · exact .refl m
    · exact .refl m

theorem manualUnslash_quiet (m : StakeManager) (nodeId : String) :
    m.Quiet (m.manualUnslash nodeId) := by
  unfold manualUnslash
  split
  · exact .refl m
  · split
    · exact ⟨rfl, fun _ => isSlashed_of_insert_le rfl fun hstake => by cases hstake⟩
    · exact .refl m

theorem globalSlashVotes_slashNode (m : StakeManager) (nodeId : String) (reason : SlashReason)
    (slashedBy : String) (now : Nat) :
    (m.slashNode nodeId reason slashedBy now).2.globalSlashVotes = m.globalSlashVotes := by
  unfold slashNode
  split
  · rfl
  · split
    · rfl
    · split <;> rfl

/-- Only the node itself can become slashed. -/
theorem eq_of_slashNode {nodeId x : String} {reason : SlashReason} {slashedBy : String} {now : Nat}
    (hafter : (m.slashNode nodeId reason slashedBy now).2.isSlashed x = true)
    (hbefore : m.isSlashed x = false) : x = nodeId := by
  by_contra hne
  have hsame : (m.slashNode nodeId reason slashedBy now).2.isSlashed x = m.isSlashed x := by
    unfold slashNode
    split
    · rfl
    · split
      · rfl
      · split
        · rfl
        · rw [isSlashed_of_insert rfl, if_neg hne]
  rw [hsame, hbefore] at hafter
  cases hafter

theorem votesAgainst_processGlobalSlashVote (m : StakeManager) (vote : GlobalSlashVote) (now : Nat)
    (x : String) :
    (m.processGlobalSlashVote vote now).votesAgainst x =
      if x = vote.targetNodeId then recordVote (m.votesAgainst x) vote else m.votesAgainst x := by
  have hvotes : (m.processGlobalSlashVote vote now).globalSlashVotes =
      m.globalSlashVotes.insert vote.targetNodeId
        (recordVote (m.votesAgainst vote.targetNodeId) vote) := by
    unfold processGlobalSlashVote
    simp only
    split
    · split
      · rw [globalSlashVotes_slashNode]
      · rfl
    · rfl
  rw [votesAgainst, hvotes, Table.lookup_insert_eq]
  split
  · next heq =>
    rw [heq]
    rfl
  · rfl

/-- A vote that slashes makes the quorum full. -/
theorem quorum_of_slashed {vote : GlobalSlashVote} {now : Nat} {x : String}
    (hbefore : m.isSlashed x = false)
    (hafter : (m.processGlobalSlashVote vote now).isSlashed x = true) :
    x = vote.targetNodeId ∧
      committeeQuorum m.getGlobalNodeCount ≤ (recordVote (m.votesAgainst x) vote).length := by
  unfold processGlobalSlashVote at hafter
  simp only at hafter
  split at hafter
  · next hquorum =>
    split at hafter
    · have hx := eq_of_slashNode hafter hbefore
      rw [hx]
      exact ⟨rfl, hquorum⟩
    · exact absurd (hbefore.symm.trans hafter) (by decide)
  · exact absurd (hbefore.symm.trans hafter) (by decide)

end StakeManager

/-- An operation processes its vote, or is quiet. -/
theorem StakeOp.run_cases (m : StakeManager) (op : StakeOp) :
    (op.cast m = none ∧ m.Quiet (op.run m)) ∨
      ∃ vote now, op.cast m = some vote ∧ op.run m = m.processGlobalSlashVote vote now := by
  cases op with
  | registerNode nodeId reputation role callerVerifiedId now =>
    exact Or.inl ⟨rfl, m.registerNode_quiet nodeId reputation role callerVerifiedId now⟩
  | processGlobalSlashVote vote now => exact Or.inr ⟨vote, now, rfl, rfl⟩
  | submitGlobalSlashVote targetNodeId reason now =>
    cases hglobal : m.isGlobal with
    | true =>
      refine Or.inr ⟨m.localVote targetNodeId reason now, now, ?_, ?_⟩
      · simp [cast, hglobal]
      · simp [run, StakeManager.submitGlobalSlashVote, hglobal]
    | false =>
      refine Or.inl ⟨by simp [cast, hglobal], ?_⟩
      have hsame : m.submitGlobalSlashVote targetNodeId reason now = m := by
        simp [StakeManager.submitGlobalSlashVote, hglobal]
      show m.Quiet (m.submitGlobalSlashVote targetNodeId reason now)
      rw [hsame]
      exact .refl m
  | attemptRecovery nodeId now => exact Or.inl ⟨rfl, m.attemptRecovery_quiet nodeId now⟩
  | manualUnslash nodeId => exact Or.inl ⟨rfl, m.manualUnslash_quiet nodeId⟩

/-! ## Section 5: Voters of a run -/

/-- The voter whose vote against `x` a step processes. -/
def voterAgainst (x : String) (step : StakeManager × StakeOp) : Option String :=
  match step.2.cast step.1 with
  | some vote => if vote.targetNodeId = x then some vote.voterNodeId else none
  | none => none

/-- The distinct voters against `x`. -/
def votersAgainst (x : String) (tr : List (StakeManager × StakeOp)) : Finset String :=
  collect (voterAgainst x) tr

def StakeManager.isRegisteredGlobal (m : StakeManager) (nodeId : String) : Bool :=
  (m.stakes.lookup nodeId).any fun stake => stake.role.isGlobal

/-- The voter, if it is registered as a global node when it votes. -/
def registeredVoterAgainst (x : String) (step : StakeManager × StakeOp) : Option String :=
  (voterAgainst x step).filter step.1.isRegisteredGlobal

/-- The step ends the slashing of `x`. -/
def unslashes (x : String) (step : StakeManager × StakeOp) : Bool :=
  step.1.isSlashed x && !(step.2.run step.1).isSlashed x

/-- The distinct registered global nodes that voted against `x` since it was
    last unslashed. -/
def registeredVotersSince (x : String) (tr : List (StakeManager × StakeOp)) : Finset String :=
  collect (registeredVoterAgainst x) (tr.rtakeWhile fun step => !unslashes x step)

/-- The step does not end the slashing of `x`, and a vote against `x` comes
    from a registered global node. -/
def regularFor (x : String) (step : StakeManager × StakeOp) : Bool :=
  !unslashes x step && (voterAgainst x step).all step.1.isRegisteredGlobal

/-- The votes recorded against each node are those of the run. -/
def VotesRecorded (tr : List (StakeManager × StakeOp)) (m : StakeManager) : Prop :=
  ∀ x, ((m.votesAgainst x).map GlobalSlashVote.voterNodeId).Nodup ∧
    ∀ voter, voter ∈ (m.votesAgainst x).map GlobalSlashVote.voterNodeId ↔
      voter ∈ votersAgainst x tr

theorem mem_votersAgainst_snoc {x voter : String} {tr : List (StakeManager × StakeOp)}
    {m : StakeManager} {op : StakeOp} :
    voter ∈ votersAgainst x (tr ++ [(m, op)]) ↔
      voter ∈ votersAgainst x tr ∨ voterAgainst x (m, op) = some voter := by
  simp only [votersAgainst, mem_collect, List.mem_append, List.mem_singleton, or_and_right,
    exists_or, exists_eq_left]

/-- One vote more: the voters stay distinct, and the new one is there. -/
theorem recordVote_spec {entry : List GlobalSlashVote} (vote : GlobalSlashVote)
    (h : (entry.map GlobalSlashVote.voterNodeId).Nodup) :
    ((StakeManager.recordVote entry vote).map GlobalSlashVote.voterNodeId).Nodup ∧
      ∀ voter, voter ∈ (StakeManager.recordVote entry vote).map GlobalSlashVote.voterNodeId ↔
        voter ∈ entry.map GlobalSlashVote.voterNodeId ∨ vote.voterNodeId = voter := by
  have hany : (entry.any fun v => v.voterNodeId = vote.voterNodeId) = true ↔
      vote.voterNodeId ∈ entry.map GlobalSlashVote.voterNodeId := by
    simp
  unfold StakeManager.recordVote
  by_cases hmem : vote.voterNodeId ∈ entry.map GlobalSlashVote.voterNodeId
  · rw [hany.mpr hmem]
    refine ⟨h, fun voter => ⟨Or.inl, ?_⟩⟩
    rintro (hvoter | rfl)
    · exact hvoter
    · exact hmem
  · rw [Bool.eq_false_iff.mpr (mt hany.mp hmem)]
    simp only [Bool.not_false, if_true, List.map_append, List.map_cons, List.map_nil]
    have hperm : (entry.map GlobalSlashVote.voterNodeId ++ [vote.voterNodeId]).Perm
        (vote.voterNodeId :: entry.map GlobalSlashVote.voterNodeId) :=
      List.perm_append_singleton _ _
    refine ⟨hperm.nodup_iff.mpr (List.nodup_cons.mpr ⟨hmem, h⟩), fun voter => ?_⟩
    rw [hperm.mem_iff, List.mem_cons, or_comm, eq_comm]

theorem votesRecorded_step {tr : List (StakeManager × StakeOp)} {m : StakeManager}
    (h : VotesRecorded tr m) (op : StakeOp) : VotesRecorded (tr ++ [(m, op)]) (op.run m) := by
  intro x
  obtain ⟨hnodup, hmem⟩ := h x
  rcases op.run_cases m with ⟨hcast, hquiet⟩ | ⟨vote, now, hcast, hrun⟩
  · have hvotes : (op.run m).votesAgainst x = m.votesAgainst x := by
      rw [StakeManager.votesAgainst, hquiet.1]
      rfl
    have hnone : voterAgainst x (m, op) = none := by
      simp only [voterAgainst, hcast]
    rw [hvotes]
    refine ⟨hnodup, fun voter => ?_⟩
    rw [hmem, mem_votersAgainst_snoc, hnone]
    simp
  · have hvoter : voterAgainst x (m, op) =
        if vote.targetNodeId = x then some vote.voterNodeId else none := by
      simp only [voterAgainst, hcast]
    rw [hrun, StakeManager.votesAgainst_processGlobalSlashVote]
    by_cases hx : x = vote.targetNodeId
    · rw [if_pos hx]
      obtain ⟨hnodup', hmem'⟩ := recordVote_spec vote hnodup
      refine ⟨hnodup', fun voter => ?_⟩
      rw [hmem', hmem, mem_votersAgainst_snoc, hvoter, if_pos hx.symm, Option.some.injEq]
    · rw [if_neg hx]
      refine ⟨hnodup, fun voter => ?_⟩
      rw [hmem, mem_votersAgainst_snoc, hvoter, if_neg (Ne.symm hx)]
      simp

theorem votesRecorded_of_exec {tr : List (StakeManager × StakeOp)} {m : StakeManager}
    (h : stakeSystem.Exec tr m) : VotesRecorded tr m := by
  refine System.Exec.history VotesRecorded ?_ ?_ h
  · rintro m ⟨config, localNodeId, isGlobal, rfl⟩ x
    exact ⟨List.nodup_nil, fun voter => by simp [votersAgainst, collect, StakeManager.votesAgainst,
      StakeManager.new]⟩
  · intro tr m op m' ih hstep
    obtain rfl : m' = op.run m := hstep
    exact votesRecorded_step ih op

/-- As many votes are recorded as there are voters. -/
theorem VotesRecorded.card_eq {tr : List (StakeManager × StakeOp)} {m : StakeManager}
    (h : VotesRecorded tr m) (x : String) :
    (votersAgainst x tr).card = (m.votesAgainst x).length := by
  obtain ⟨hnodup, hmem⟩ := h x
  have heq :
      votersAgainst x tr = ((m.votesAgainst x).map GlobalSlashVote.voterNodeId).toFinset := by
    ext voter
    rw [List.mem_toFinset, hmem]
  rw [heq, List.toFinset_card_of_nodup hnodup, List.length_map]

/-- In a regular run all voters are registered, and none voted before an end
    of the slashing. -/
theorem registeredVotersSince_eq {x : String} {tr : List (StakeManager × StakeOp)}
    (h : ∀ step ∈ tr, regularFor x step = true) :
    registeredVotersSince x tr = votersAgainst x tr := by
  have hparts : ∀ step ∈ tr, (!unslashes x step) = true ∧
      (voterAgainst x step).all step.1.isRegisteredGlobal = true := by
    intro step hstep
    simpa [regularFor] using h step hstep
  have hall : (tr.rtakeWhile fun step => !unslashes x step) = tr := by
    rw [List.rtakeWhile_eq_self_iff]
    exact fun step hstep => (hparts step hstep).1
  unfold registeredVotersSince votersAgainst
  rw [hall]
  ext voter
  rw [mem_collect, mem_collect]
  refine exists_congr fun step => and_congr_right fun hstep => ?_
  unfold registeredVoterAgainst
  rw [Option.filter_eq_some_iff]
  refine and_iff_left_of_imp fun hvoter => ?_
  have hregistered := (hparts step hstep).2
  rw [hvoter] at hregistered
  exact hregistered

/-- **Committee quorum.** A node that becomes slashed in a run has at least
    `committeeQuorum` distinct voters against it, for the number of global nodes
    at that time. They are registered global nodes that voted since it was last
    unslashed, if no other vote was cast against it and it was not unslashed. -/
theorem committee_slash_quorum {tr : List (StakeManager × StakeOp)} {m : StakeManager}
    (h : stakeSystem.Exec tr m) {op : StakeOp} {x : String} (hbefore : m.isSlashed x = false)
    (hafter : (op.run m).isSlashed x = true) :
    StakeManager.committeeQuorum m.getGlobalNodeCount ≤ (votersAgainst x (tr ++ [(m, op)])).card ∧
    ((∀ step ∈ tr ++ [(m, op)], regularFor x step = true) →
      StakeManager.committeeQuorum m.getGlobalNodeCount ≤
        (registeredVotersSince x (tr ++ [(m, op)])).card) := by
  have hquorum : StakeManager.committeeQuorum m.getGlobalNodeCount ≤
      (votersAgainst x (tr ++ [(m, op)])).card := by
    rw [(votesRecorded_step (votesRecorded_of_exec h) op).card_eq]
    rcases op.run_cases m with ⟨-, hquiet⟩ | ⟨vote, now, -, hrun⟩
    · exact absurd (hbefore.symm.trans (hquiet.2 x hafter)) (by decide)
    · rw [hrun] at hafter ⊢
      obtain ⟨hx, hle⟩ := StakeManager.quorum_of_slashed hbefore hafter
      rw [StakeManager.votesAgainst_processGlobalSlashVote, if_pos hx]
      exact hle
  refine ⟨hquorum, fun hregular => ?_⟩
  rw [registeredVotersSince_eq hregular]
  exact hquorum

/-! ### Two global nodes -/

def newManager : StakeManager :=
  .new ⟨300, 3600, true⟩ "global-1" true

def registerGlobal (nodeId : String) : StakeOp := .registerNode nodeId 50 .global none 1000

/-- Two global nodes and an edge node register. -/
def twoGlobals : List StakeOp :=
  [registerGlobal "global-1", registerGlobal "global-2", .registerNode "edge-1" 50 .edge none 1000]

def voteOfFirst : StakeOp :=
  .processGlobalSlashVote ⟨"global-1", "edge-1", .dhtPoisoning, 1010⟩ 1010

/-- The states and steps of a list of operations. -/
def stepsOf (m : StakeManager) : List StakeOp → List (StakeManager × StakeOp)
  | [] => []
  | op :: ops => (m, op) :: stepsOf (op.run m) ops

theorem exec_newManager : stakeSystem.Exec [] newManager :=
  .nil ⟨⟨300, 3600, true⟩, "global-1", true, rfl⟩

theorem exec_twoGlobals : stakeSystem.Exec (stepsOf newManager twoGlobals)
    (twoGlobals.foldl StakeOp.run newManager) :=
  ((exec_newManager.snoc rfl).snoc rfl).snoc rfl

/-- One vote of two global nodes slashes. -/
theorem one_vote_of_two_is_quorum :
    let m := twoGlobals.foldl StakeOp.run newManager
    let tr := stepsOf newManager twoGlobals ++ [(m, voteOfFirst)]
    StakeManager.committeeQuorum m.getGlobalNodeCount ≤ (votersAgainst "edge-1" tr).card ∧
    StakeManager.committeeQuorum m.getGlobalNodeCount ≤
      (registeredVotersSince "edge-1" tr).card := by
  intro m tr
  have hafter : (voteOfFirst.run (twoGlobals.foldl StakeOp.run newManager)).isSlashed "edge-1" =
      true := by decide +kernel
  obtain ⟨hvoters, hregistered⟩ := committee_slash_quorum exec_twoGlobals (by decide +kernel) hafter
  exact ⟨hvoters, hregistered (by decide +kernel)⟩

/-- It is not enough for `required_signatures_for`. -/
theorem one_vote_of_two_slashes :
    ¬ ∀ tr m vote now x, stakeSystem.Exec tr m → m.isSlashed x = false →
      (m.processGlobalSlashVote vote now).isSlashed x = true →
      requiredSignaturesFor m.getGlobalNodeCount ≤
        (registeredVotersSince x (tr ++ [(m, .processGlobalSlashVote vote now)])).card := by
  intro hall
  have h := hall _ _ ⟨"global-1", "edge-1", .dhtPoisoning, 1010⟩ 1010 "edge-1" exec_twoGlobals
    (by decide +kernel) (by decide +kernel)
  revert h
  decide +kernel

end Synvoid.Mesh
