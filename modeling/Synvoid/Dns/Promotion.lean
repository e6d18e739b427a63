import Synvoid.Dns.TrustLifecycle

/-! # Promotion of pending anchors

    Two operations promote a pending anchor at the end of its observation
    period. `trust_anchor_check`, called with the key tags of the current
    DNSKEY RRset, looks for the key's tag among them; the periodic sweep
    `process_rfc5011_updates` looks at the clock only. So the sweep promotes
    a key that left the zone (`sweep_promotes_departed_key`).

    In runs with a nondecreasing clock, every promotion is of a key that was
    observed at or after the end of its observation period exactly if no
    operation finds an anchor due for promotion that was last seen before
    that (`promoted_keys_seen_iff`). The invariant behind it: `last_seen` is
    the time of an observation of the key in the run, or was loaded, or
    belongs to a configured anchor that has never been seen and became
    pending after its `last_seen`.
-/

namespace Synvoid.Dns

open Synvoid.Framework

/-! ## Section 1: Promotions -/

/-- The clock reading by which the operation decides on promotions, for the
    two operations that are to test that the key is still there:
    `process_rfc5011_updates`, and `trust_anchor_check` with the current key
    tags. -/
def LifecycleOp.testedAt : LifecycleOp → Option Nat
  | .manager (.processRfc5011Updates now _ _) => some now
  | .manager (.trustAnchorCheck _ _ _ _ (some _) now) => some now
  | _ => none

/-- Every anchor that the operation finds due for promotion was last seen at
    or after the end of its observation period. -/
def DueKeysSeen (config : TrustAnchorConfig) (anchors : AnchorTable) : LifecycleOp → Prop
  | .manager (.processRfc5011Updates now _ _) => ∀ k a since, anchors.lookup k = some a →
      a.state = .pending → a.pendingSince = some since →
      secsOfDays config.pendingObservationDays ≤ now - since →
      since + secsOfDays config.pendingObservationDays ≤ a.lastSeen
  | .manager (.trustAnchorCheck keyTag algorithm _ _ (some keytags) now) => keyTag ∈ keytags →
      ∀ a, anchors.lookup (TrustAnchor.generateKeyId keyTag algorithm) = some a →
      a.state = .pending →
      secsOfDays config.pendingObservationDays ≤ now - a.pendingSince.getD now →
      a.pendingSince.getD now + secsOfDays config.pendingObservationDays ≤ a.lastSeen
  | _ => True

variable {dsDigest : DsDigest} {config : TrustAnchorConfig}

theorem check_promotes_iff {a : TrustAnchor} (hpend : a.state = .pending) (keyTag : UInt16)
    (algorithm digestType : UInt8) (digest : List UInt8) (keytags : List UInt16) (now : Nat) :
    (a.check dsDigest config keyTag algorithm digestType digest (some keytags) now).1.state =
      .valid ↔
    keyTag ∈ keytags ∧
      secsOfDays config.pendingObservationDays ≤ now - a.pendingSince.getD now := by
  simp only [TrustAnchor.check, hpend, Option.map_some, Option.some.injEq]
  by_cases hdue : secsOfDays config.pendingObservationDays ≤ now - a.pendingSince.getD now
  · by_cases hmem : keyTag ∈ keytags
    · simp [hdue, hmem]
    · simp [hdue, hmem, hpend]
  · simp [hdue, hpend]

theorem update_promotes_iff {a : TrustAnchor} (hpend : a.state = .pending) (now expiryNow : Nat) :
    (∃ a', (a.update config now expiryNow).1 = some a' ∧ a'.state = .valid) ↔
    ∃ since, a.pendingSince = some since ∧
      secsOfDays config.pendingObservationDays ≤ now - since := by
  cases hsince : a.pendingSince with
  | none => simp [TrustAnchor.update, hpend, hsince]
  | some since =>
    by_cases hdue : secsOfDays config.pendingObservationDays ≤ now - since
    · simp [TrustAnchor.update, hpend, hsince, hdue]
    · simp [TrustAnchor.update, hpend, hsince, hdue]

/-- **Step lemma.** The condition on the state before is that every promotion
    by this operation is of an anchor last seen late enough. -/
theorem dueKeysSeen_iff (anchors : AnchorTable) (op : LifecycleOp) :
    (∀ now, op.testedAt = some now → ∀ k a a', anchors.lookup k = some a → a.state = .pending →
      (op.apply dsDigest config anchors).lookup k = some a' → a'.state = .valid →
      a.pendingSince.getD now + secsOfDays config.pendingObservationDays ≤ a.lastSeen) ↔
    DueKeysSeen config anchors op := by
  cases op with
  | manager op =>
    cases op with
    | processRfc5011Updates now expiryNow done =>
      constructor
      · intro h k a since ha hpend hsince hdue
        obtain ⟨a', ha', hvalid⟩ := (update_promotes_iff hpend now (expiryNow k)).mpr
          ⟨since, hsince, hdue⟩
        have hafter : ((LifecycleOp.manager (.processRfc5011Updates now expiryNow done)).apply
            dsDigest config anchors).lookup k = some a' := by
          show (Table.traverse anchors _).lookup k = some a'
          rw [Table.lookup_traverse, ha]
          exact ha'
        have hseen := h now rfl k a a' ha hpend hafter hvalid
        rwa [hsince, Option.getD_some] at hseen
      · intro h now' hnow k a a' ha hpend hafter hvalid
        obtain rfl : now = now' := Option.some.inj hnow
        have hup : (a.update config now (expiryNow k)).1 = some a' := by
          rw [← hafter]
          show _ = (Table.traverse anchors _).lookup k
          rw [Table.lookup_traverse, ha]
          rfl
        obtain ⟨since, hsince, hdue⟩ :=
          (update_promotes_iff hpend now (expiryNow k)).mp ⟨a', hup, hvalid⟩
        rw [hsince, Option.getD_some]
        exact h k a since ha hpend hsince hdue
    | trustAnchorCheck keyTag algorithm digestType digest keytags now =>
      cases keytags with
      | none =>
        exact iff_of_true (fun _ hnow => absurd hnow (by simp [LifecycleOp.testedAt])) trivial
      | some keytags =>
        constructor
        · intro h hmem a ha hpend hdue
          have hvalid := (@check_promotes_iff dsDigest config a hpend keyTag algorithm digestType
            digest keytags now).mpr ⟨hmem, hdue⟩
          refine h now rfl _ a _ ha hpend ?_ hvalid
          simp [LifecycleOp.apply, ManagerOp.apply, lookup_trustAnchorCheck, ha]
        · intro h now' hnow k a a' ha hpend hafter hvalid
          obtain rfl : now = now' := Option.some.inj hnow
          simp only [LifecycleOp.apply, ManagerOp.apply, lookup_trustAnchorCheck] at hafter
          by_cases hk : k = TrustAnchor.generateKeyId keyTag algorithm
          · rw [if_pos hk, ha] at hafter
            obtain rfl := Option.some.inj hafter
            obtain ⟨hmem, hdue⟩ := (check_promotes_iff hpend keyTag algorithm digestType digest
              keytags now).mp hvalid
            exact h hmem a (hk ▸ ha) hpend hdue
          · rw [if_neg hk, ha] at hafter
            obtain rfl := Option.some.inj hafter
            simp [hpend] at hvalid
    | observeDnskeyAtRoot | removeAnchor | checkForRevokedKeys =>
      exact iff_of_true (fun _ hnow => absurd hnow (by simp [LifecycleOp.testedAt])) trivial
  | addAnchor | loadAnchors | loadInitialAnchorsFromFile =>
    exact iff_of_true (fun _ hnow => absurd hnow (by simp [LifecycleOp.testedAt])) trivial

/-! ## Section 2: What `last_seen` records -/

/-- `last_seen` of the anchor of `keyId` is the time of an observation of its
    key, without the REVOKE bit, in the run, or it was loaded with the
    anchor. -/
def SeenIn (tr : List (Manager × LifecycleOp)) (keyId : String) (a : TrustAnchor) : Prop :=
  (∃ e ∈ tr, ∃ keyTag algorithm, keyId = TrustAnchor.generateKeyId keyTag algorithm ∧
    e.2 = .manager (.observeDnskeyAtRoot keyTag algorithm a.publicKey false a.lastSeen)) ∨
  (∃ e ∈ tr, ∃ rows, e.2 = .loadAnchors rows ∧ ∃ row ∈ rows, row.keyId = keyId ∧
    row.publicKey = a.publicKey ∧ row.lastSeen = a.lastSeen)

/-- A configured anchor that was never observed: if it is pending now, its
    `last_seen` lies before that. -/
def NeverSeen (clock : Nat) (a : TrustAnchor) : Prop :=
  a.state = .valid ∨ (a.state = .missing ∧ a.lastSeen < clock) ∨
  (a.state = .pending ∧ ∃ since, a.pendingSince = some since ∧ a.lastSeen < since)

theorem SeenIn.snoc {tr : List (Manager × LifecycleOp)} {k : String} {a a' : TrustAnchor}
    (h : SeenIn tr k a) (x : Manager × LifecycleOp) (hpk : a'.publicKey = a.publicKey)
    (hseen : a'.lastSeen = a.lastSeen) : SeenIn (tr ++ [x]) k a' := by
  unfold SeenIn
  rw [hpk, hseen]
  rcases h with ⟨e, he, hobs⟩ | ⟨e, he, hload⟩
  · exact Or.inl ⟨e, List.mem_append_left _ he, hobs⟩
  · exact Or.inr ⟨e, List.mem_append_left _ he, hload⟩

theorem NeverSeen.mono {clock clock' : Nat} {a : TrustAnchor} (h : NeverSeen clock a)
    (hle : clock ≤ clock') : NeverSeen clock' a := by
  rcases h with hv | ⟨hm, hlt⟩ | hp
  · exact Or.inl hv
  · exact Or.inr (Or.inl ⟨hm, by omega⟩)
  · exact Or.inr (Or.inr hp)

/-- `observe_dnskey_at_root` of a known key. -/
theorem observe_seen (a : TrustAnchor) (keyTag : UInt16) (publicKey : List UInt8)
    (isRevoked : Bool) (now : Nat) :
    let a' := (a.observe keyTag publicKey isRevoked now).1
    a' = a ∨ a'.Dead ∨ (isRevoked = false ∧ publicKey = a'.publicKey ∧ a'.lastSeen = now) := by
  simp only [TrustAnchor.observe]
  split_ifs with hkey hrev hnot hrevoked hmissing htrust
  · exact Or.inl rfl
  · exact Or.inr (Or.inl (Or.inl rfl))
  · exact Or.inr (Or.inl (Or.inl (by simpa using hnot)))
  · exact Or.inr (Or.inl (Or.inl hrevoked))
  · exact Or.inr (Or.inr ⟨by simpa using hrev, (not_not.mp hkey).symm, rfl⟩)
  · exact Or.inr (Or.inr ⟨by simpa using hrev, (not_not.mp hkey).symm, rfl⟩)
  · exact Or.inr (Or.inr ⟨by simpa using hrev, (not_not.mp hkey).symm, rfl⟩)

/-- `trust_anchor_check` of a known key. -/
theorem check_moves (a : TrustAnchor) (keyTag : UInt16) (algorithm digestType : UInt8)
    (digest : List UInt8) (keytags : Option (List UInt16)) (now : Nat) :
    let a' := (a.check dsDigest config keyTag algorithm digestType digest keytags now).1
    a' = a ∨
    a'.publicKey = a.publicKey ∧ a'.lastSeen = a.lastSeen ∧
      (a'.state = .valid ∨
        (a.state = .seen ∨ a.state = .missing) ∧ a'.state = .pending ∧
          a'.pendingSince = some now) := by
  intro a'
  rcases check_eq a keyTag algorithm digestType digest keytags now with
    hsame | ⟨hst, -, hacc⟩ | ⟨hst, -, hacc⟩ | ⟨-, -, hvalid⟩
  · exact Or.inl hsame
  · exact Or.inr (by simp [a', hacc, hst])
  · exact Or.inr (by simp [a', hacc, hst])
  · exact Or.inr (by simp [a', hvalid])

/-- `process_rfc5011_updates` for an anchor that it keeps. -/
theorem update_moves {a a' : TrustAnchor} {now expiryNow : Nat}
    (h : (a.update config now expiryNow).1 = some a') :
    a' = a ∨ a'.Dead ∨
    a'.publicKey = a.publicKey ∧ a'.lastSeen = a.lastSeen ∧
      (a'.state = .valid ∨ a.state = .valid ∧ a'.state = .missing ∧ a.lastSeen < expiryNow) := by
  rcases update_eq_some h with hsame | ⟨_, -, -, -, hvalid⟩ | ⟨_, hst, -⟩ | ⟨hst, hexp, hmissing⟩
  · exact Or.inl hsame
  · subst hvalid
    exact Or.inr (Or.inr ⟨rfl, rfl, Or.inl rfl⟩)
  · exact Or.inr (Or.inl (dead_update (Or.inl hst) h))
  · have hgap : expiryNow - a.lastSeen > secsOfDays config.trustAnchorRetentionDays := by
      simpa [TrustAnchor.isExpired] using hexp
    subst hmissing
    exact Or.inr (Or.inr ⟨rfl, rfl, Or.inr ⟨hst, rfl, by omega⟩⟩)

theorem LifecycleOp.Monotone.clock_le {clock : Nat} {op : LifecycleOp} (h : op.Monotone clock) :
    clock ≤ op.clockAfter clock := by
  cases op with
  | manager op => exact ManagerOp.Monotone.clock_le h
  | addAnchor => exact h
  | loadAnchors => exact Nat.le_refl _
  | loadInitialAnchorsFromFile => exact h

/-- **Step lemma.** -/
theorem EntryMove.seen {tr : List (Manager × LifecycleOp)} {m : Manager} {op : LifecycleOp}
    {k : String} {before after : Option TrustAnchor} (hop : op.Monotone m.clock)
    (hmove : EntryMove dsDigest config op k before after)
    (h : ∀ a, before = some a → a.Dead ∨ SeenIn tr k a ∨ NeverSeen m.clock a) :
    ∀ a, after = some a →
      a.Dead ∨ SeenIn (tr ++ [(m, op)]) k a ∨ NeverSeen (op.clockAfter m.clock) a := by
  intro a' ha'
  have hle := hop.clock_le
  -- an anchor that keeps its key, its last observation and its place in `NeverSeen`
  have hsame : ∀ a, before = some a → a' = a →
      a'.Dead ∨ SeenIn (tr ++ [(m, op)]) k a' ∨ NeverSeen (op.clockAfter m.clock) a' := by
    intro a ha heq
    subst heq
    rcases h a' ha with hd | hs | hn
    · exact Or.inl hd
    · exact Or.inr (Or.inl (hs.snoc _ rfl rfl))
    · exact Or.inr (Or.inr (hn.mono hle))
  cases hmove with
  | keeps => exact hsame a' ha' rfl
  | created keyTag algorithm publicKey now hobs hk =>
    obtain rfl := Option.some.inj ha'
    exact Or.inr (Or.inl (Or.inl ⟨(m, op), by simp, keyTag, algorithm, hk, hobs⟩))
  | observed keyTag algorithm publicKey isRevoked now a hobs hk =>
    obtain rfl := Option.some.inj ha'
    rcases observe_seen a keyTag publicKey isRevoked now with heq | hd | ⟨hrev, hpk, hnow⟩
    · exact hsame a rfl heq
    · exact Or.inl hd
    · refine Or.inr (Or.inl (Or.inl ⟨(m, op), by simp, keyTag, algorithm, hk, ?_⟩))
      rw [← hpk, hnow, ← hrev]
      exact hobs
  | checked keyTag algorithm digestType digest keytags now a hcheck =>
    obtain rfl := Option.some.inj ha'
    rcases @check_moves dsDigest config a keyTag algorithm digestType digest keytags now with
      heq | ⟨hpk, hseen, hmove⟩
    · exact hsame a rfl heq
    · rcases h a rfl with hd | hs | hn
      · rw [check_of_dead hd]
        exact Or.inl hd
      · exact Or.inr (Or.inl (hs.snoc _ hpk hseen))
      · refine Or.inr (Or.inr ?_)
        rcases hmove with hvalid | ⟨hst, hpend, hsince⟩
        · exact Or.inl hvalid
        · -- only an anchor that had gone missing can be pending again
          subst hcheck
          have hnow : m.clock ≤ now := hop
          rcases hn with hv | ⟨hm, hlt⟩ | ⟨hp, -⟩
          · rcases hst with hst | hst <;> simp [hst] at hv
          · exact Or.inr (Or.inr ⟨hpend, now, hsince, by omega⟩)
          · rcases hst with hst | hst <;> simp [hst] at hp
  | updated now expiryNow done a hsweep =>
    rcases update_moves ha' with heq | hd | ⟨hpk, hseen, hmove⟩
    · exact hsame a rfl heq
    · exact Or.inl hd
    · rcases h a rfl with hd | hs | hn
      · exact Or.inl (dead_update hd ha')
      · exact Or.inr (Or.inl (hs.snoc _ hpk hseen))
      · refine Or.inr (Or.inr ?_)
        rcases hmove with hvalid | ⟨-, hmissing, hlt⟩
        · exact Or.inl hvalid
        · subst hsweep
          obtain ⟨-, -, hreadings⟩ : m.clock ≤ now ∧ now ≤ done ∧
              ∀ keyId, now ≤ expiryNow keyId ∧ expiryNow keyId ≤ done := hop
          refine Or.inr (Or.inl ⟨hmissing, ?_⟩)
          rw [hseen]
          exact Nat.lt_of_lt_of_le hlt (hreadings k).2
  | removed =>
    obtain rfl := Option.some.inj ha'
    exact Or.inl (Or.inl rfl)
  | revoked =>
    obtain rfl := Option.some.inj ha'
    exact Or.inl (Or.inl rfl)
  | added =>
    obtain rfl := Option.some.inj ha'
    exact Or.inr (Or.inr (Or.inl rfl))
  | loaded pre row post entry hload _ hid =>
    obtain rfl := Option.some.inj ha'
    exact Or.inr (Or.inl (Or.inr ⟨(m, op), by simp, _, hload, row, by simp, hid, rfl, rfl⟩))
  | configured =>
    obtain rfl := Option.some.inj ha'
    exact Or.inr (Or.inr (Or.inl rfl))

/-- **Run lemma.** -/
theorem seen_of_exec {tr : List (Manager × LifecycleOp)} {m : Manager}
    (h : (lifecycleSystem dsDigest config fun clock op => op.Monotone clock).Exec tr m) :
    ∀ k a, m.anchors.lookup k = some a → a.Dead ∨ SeenIn tr k a ∨ NeverSeen m.clock a := by
  refine System.Exec.history (fun tr m => ∀ k a, m.anchors.lookup k = some a →
    a.Dead ∨ SeenIn tr k a ∨ NeverSeen m.clock a) ?_ ?_ h
  · intro m hinit k a ha
    rw [show m.anchors = ∅ from hinit, AList.lookup_empty] at ha
    exact absurd ha (by simp)
  · intro tr m op m' hinv hstep k a' ha'
    have hclock : m'.clock = op.clockAfter m.clock := by
      obtain ⟨-, t, -, rfl⟩ := hstep
      rfl
    rw [hclock]
    exact (entryMove_of_step hstep k).seen hstep.1 (hinv k) a' ha'

/-! ## Section 3: Promoted keys -/

/-- **Promoted keys have been seen.** In a run with a nondecreasing clock,
    each promotion by `process_rfc5011_updates`, or by `trust_anchor_check`
    with the current key tags, is of a key that was observed at or after the
    end of its observation period, if and only if each of these operations
    finds its due keys so. -/
theorem promoted_keys_seen_iff (dsDigest : DsDigest) (config : TrustAnchorConfig)
    {tr : List (Manager × LifecycleOp)} {m : Manager}
    (hexec : (lifecycleSystem dsDigest config fun clock op => op.Monotone clock).Exec tr m) :
    (∀ pre m₁ op post now, tr = pre ++ (m₁, op) :: post → op.testedAt = some now →
      ∀ k a a', m₁.anchors.lookup k = some a → a.state = .pending →
      (op.apply dsDigest config m₁.anchors).lookup k = some a' → a'.state = .valid →
      a.pendingSince.getD now + secsOfDays config.pendingObservationDays ≤ a.lastSeen ∧
        SeenIn pre k a) ↔
    ∀ e ∈ tr, DueKeysSeen config e.1.anchors e.2 := by
  constructor
  · intro h e he
    obtain ⟨m₁, op⟩ := e
    obtain ⟨pre, post, htr⟩ := List.append_of_mem he
    refine (@dueKeysSeen_iff dsDigest config m₁.anchors op).mp ?_
    intro now hnow k a a' ha hpend hafter hvalid
    exact (h pre m₁ op post now htr hnow k a a' ha hpend hafter hvalid).1
  · intro h pre m₁ op post now htr hnow k a a' ha hpend hafter hvalid
    subst htr
    have hlate := (@dueKeysSeen_iff dsDigest config m₁.anchors op).mpr (h (m₁, op) (by simp))
      now hnow k a a' ha hpend hafter hvalid
    refine ⟨hlate, ?_⟩
    rcases seen_of_exec hexec.before k a ha with hd | hs | hn
    · rcases hd with hd | hd <;> simp [hd] at hpend
    · exact hs
    · -- a configured anchor that was never seen became pending after its `last_seen`
      rcases hn with hv | ⟨hm, -⟩ | ⟨-, since, hsince, hlt⟩
      · simp [hv] at hpend
      · simp [hm] at hpend
      · rw [hsince, Option.getD_some] at hlate
        omega

/-- Key 7 is seen, checked, seen again after the observation period of one
    day, and promoted by the sweep. -/
theorem promoted_keys_seen_key_seven :
    let config : TrustAnchorConfig := ⟨1, 30, 60, 7⟩
    let op₁ : LifecycleOp := .manager (.observeDnskeyAtRoot 7 8 [1, 2] false 100)
    let op₂ : LifecycleOp := .manager (.trustAnchorCheck 7 8 2 [1, 2] none 200)
    let op₃ : LifecycleOp := .manager (.observeDnskeyAtRoot 7 8 [1, 2] false 86600)
    let op₄ : LifecycleOp := .manager (.processRfc5011Updates 86700 (fun _ => 86700) 86700)
    let t₁ := op₁.apply plainDigest config ∅
    let t₂ := op₂.apply plainDigest config t₁
    let t₃ := op₃.apply plainDigest config t₂
    ∃ a a', t₃.lookup "7-8" = some a ∧ a.state = .pending ∧
      (op₄.apply plainDigest config t₃).lookup "7-8" = some a' ∧ a'.state = .valid ∧
      200 + secsOfDays 1 ≤ a.lastSeen ∧
      SeenIn [(⟨∅, 0⟩, op₁), (⟨t₁, 100⟩, op₂), (⟨t₂, 200⟩, op₃)] "7-8" a := by
  intro config op₁ op₂ op₃ op₄ t₁ t₂ t₃
  have h₀ : (lifecycleSystem plainDigest config fun clock op => op.Monotone clock).Exec []
      ⟨∅, 0⟩ := .nil rfl
  have h₁ : (lifecycleSystem plainDigest config fun clock op => op.Monotone clock).step
      ⟨∅, 0⟩ op₁ ⟨t₁, 100⟩ := ⟨Nat.zero_le _, ∅, .refl _, rfl⟩
  have h₂ : (lifecycleSystem plainDigest config fun clock op => op.Monotone clock).step
      ⟨t₁, 100⟩ op₂ ⟨t₂, 200⟩ := ⟨show 100 ≤ 200 by omega, t₁, .refl _, rfl⟩
  have h₃ : (lifecycleSystem plainDigest config fun clock op => op.Monotone clock).step
      ⟨t₂, 200⟩ op₃ ⟨t₃, 86600⟩ := ⟨show 200 ≤ 86600 by omega, t₂, .refl _, rfl⟩
  have h₄ : (lifecycleSystem plainDigest config fun clock op => op.Monotone clock).step
      ⟨t₃, 86600⟩ op₄ ⟨op₄.apply plainDigest config t₃, 86700⟩ :=
    ⟨⟨show 86600 ≤ 86700 by omega, Nat.le_refl _, fun _ => ⟨Nat.le_refl _, Nat.le_refl _⟩⟩,
      t₃, .refl _, rfl⟩
  have hexec := (((h₀.snoc h₁).snoc h₂).snoc h₃).snoc h₄
  let a : TrustAnchor :=
    ⟨"7-8", 7, 8, [1, 2], .pending, 100, 86600, 0, some 100, some 200, none, none⟩
  have ht₃ : t₃.entries = [⟨"7-8", a⟩] := by decide +kernel
  have hdue : DueKeysSeen config t₃ op₄ := by
    intro k b since hb hpend hsince hover
    have hmem : (⟨k, b⟩ : Sigma fun _ : String => TrustAnchor) ∈ t₃.entries :=
      AList.mem_lookup_iff.mp hb
    rw [ht₃, List.mem_singleton] at hmem
    obtain rfl : b = a := congrArg Sigma.snd hmem
    obtain rfl : 200 = since := Option.some.inj hsince
    decide
  have hall : ∀ e ∈ [((⟨∅, 0⟩ : Manager), op₁), (⟨t₁, 100⟩, op₂), (⟨t₂, 200⟩, op₃),
      (⟨t₃, 86600⟩, op₄)], DueKeysSeen config e.1.anchors e.2 := by
    intro e he
    simp only [List.mem_cons, List.not_mem_nil, or_false] at he
    rcases he with rfl | rfl | rfl | rfl
    · trivial
    · trivial
    · trivial
    · exact hdue
  have ha : t₃.lookup "7-8" = some a := by decide +kernel
  have hafter : (op₄.apply plainDigest config t₃).lookup "7-8" =
      some { a with state := .valid, trustPoint := 86700 } := by
    decide +kernel
  obtain ⟨hlate, hseen⟩ := (promoted_keys_seen_iff plainDigest config hexec).mpr hall
    [(⟨∅, 0⟩, op₁), (⟨t₁, 100⟩, op₂), (⟨t₂, 200⟩, op₃)] ⟨t₃, 86600⟩ op₄ [] 86700 rfl rfl "7-8" a _
    ha rfl hafter rfl
  exact ⟨a, _, ha, rfl, hafter, rfl, hlate, hseen⟩

/-- Key 7 was seen at time 100 and never again; the sweep promotes it at the
    end of its observation period, which began at time 200. -/
theorem sweep_promotes_departed_key :
    let config : TrustAnchorConfig := ⟨1, 30, 60, 7⟩
    let op₁ : LifecycleOp := .manager (.observeDnskeyAtRoot 7 8 [1, 2] false 100)
    let op₂ : LifecycleOp := .manager (.trustAnchorCheck 7 8 2 [1, 2] none 200)
    let op₃ : LifecycleOp := .manager (.processRfc5011Updates 86600 (fun _ => 86600) 86600)
    let t₁ := op₁.apply plainDigest config ∅
    let t₂ := op₂.apply plainDigest config t₁
    let t₃ := op₃.apply plainDigest config t₂
    let a : TrustAnchor :=
      ⟨"7-8", 7, 8, [1, 2], .pending, 100, 100, 0, some 100, some 200, none, none⟩
    (lifecycleSystem plainDigest config fun clock op => op.Monotone clock).Exec
      [(⟨∅, 0⟩, op₁), (⟨t₁, 100⟩, op₂), (⟨t₂, 200⟩, op₃)] ⟨t₃, 86600⟩ ∧
    t₂.lookup "7-8" = some a ∧
    t₃.lookup "7-8" = some { a with state := .valid, trustPoint := 86600 } ∧
    ¬ 200 + secsOfDays config.pendingObservationDays ≤ a.lastSeen := by
  intro config op₁ op₂ op₃ t₁ t₂ t₃ a
  have h₀ : (lifecycleSystem plainDigest config fun clock op => op.Monotone clock).Exec []
      ⟨∅, 0⟩ := .nil rfl
  have h₁ : (lifecycleSystem plainDigest config fun clock op => op.Monotone clock).step
      ⟨∅, 0⟩ op₁ ⟨t₁, 100⟩ := ⟨Nat.zero_le _, ∅, .refl _, rfl⟩
  have h₂ : (lifecycleSystem plainDigest config fun clock op => op.Monotone clock).step
      ⟨t₁, 100⟩ op₂ ⟨t₂, 200⟩ := ⟨show 100 ≤ 200 by omega, t₁, .refl _, rfl⟩
  have h₃ : (lifecycleSystem plainDigest config fun clock op => op.Monotone clock).step
      ⟨t₂, 200⟩ op₃ ⟨t₃, 86600⟩ :=
    ⟨⟨show 200 ≤ 86600 by omega, Nat.le_refl _, fun _ => ⟨Nat.le_refl _, Nat.le_refl _⟩⟩,
      t₂, .refl _, rfl⟩
  exact ⟨((h₀.snoc h₁).snoc h₂).snoc h₃, by decide +kernel, by decide +kernel, by decide⟩

end Synvoid.Dns
