import Synvoid.Framework.Transition
import Synvoid.Dns.TrustAnchor

/-! # Trust is earned

    Runs of the trust anchor manager from an empty table, with nondecreasing
    clock readings. Two operations promote a pending anchor, and an anchor
    that went missing may become pending again without a new digest check.
    Still, every valid anchor has been through a digest check of its stored
    key, and had been pending for the whole observation period when it was
    promoted (`valid_anchor_earned`).

    The proof says once what a step can do to one anchor (`AnchorMove`) and
    derives the invariant from that. An anchor that may become pending again
    carries a nonzero `trust_point`, which only a promotion sets.
-/

namespace Synvoid.Dns

open Synvoid.Framework

/-! ## Section 1: Runs of the manager -/

/-- The manager: its table and the last clock reading. -/
structure Manager where
  anchors : AnchorTable
  clock : Nat

/-- An operation, with its arguments and the clock readings it makes. -/
inductive ManagerOp where
  | observeDnskeyAtRoot (keyTag : UInt16) (algorithm : UInt8) (publicKey : List UInt8)
      (isRevoked : Bool) (now : Nat)
  | trustAnchorCheck (keyTag : UInt16) (algorithm digestType : UInt8) (digest : List UInt8)
      (currentDnskeyKeytags : Option (List UInt16)) (now : Nat)
  | processRfc5011Updates (now : Nat) (expiryNow : String → Nat) (done : Nat)
  | removeAnchor (keyId : String) (saved : Except String Unit)
  | checkForRevokedKeys (revokedKeyTags : List (UInt16 × Nat))

/-- The readings of an operation never go back, neither behind `clock` nor
    behind each other. -/
def ManagerOp.Monotone (clock : Nat) : ManagerOp → Prop
  | .observeDnskeyAtRoot _ _ _ _ now => clock ≤ now
  | .trustAnchorCheck _ _ _ _ _ now => clock ≤ now
  | .processRfc5011Updates now expiryNow done =>
      clock ≤ now ∧ now ≤ done ∧ ∀ keyId, now ≤ expiryNow keyId ∧ expiryNow keyId ≤ done
  | .removeAnchor _ _ => True
  | .checkForRevokedKeys tags => (clock :: tags.map Prod.snd).Pairwise (· ≤ ·)

/-- The last reading of the operation. -/
def ManagerOp.clockAfter (clock : Nat) : ManagerOp → Nat
  | .observeDnskeyAtRoot _ _ _ _ now => now
  | .trustAnchorCheck _ _ _ _ _ now => now
  | .processRfc5011Updates _ _ done => done
  | .removeAnchor _ _ => clock
  | .checkForRevokedKeys tags => (tags.map Prod.snd).getLastD clock

section runs
variable (dsDigest : DsDigest) (config : TrustAnchorConfig)

/-- The table after an operation. -/
def ManagerOp.apply (anchors : AnchorTable) : ManagerOp → AnchorTable
  | .observeDnskeyAtRoot keyTag algorithm publicKey isRevoked now =>
      (Dns.observeDnskeyAtRoot anchors keyTag algorithm publicKey isRevoked now).1
  | .trustAnchorCheck keyTag algorithm digestType digest keytags now =>
      (Dns.trustAnchorCheck dsDigest config anchors keyTag algorithm digestType digest
        keytags now).1
  | .processRfc5011Updates now expiryNow _ =>
      (Dns.processRfc5011Updates config anchors now expiryNow).1
  | .removeAnchor keyId saved => (Dns.removeAnchor anchors keyId saved).1
  | .checkForRevokedKeys tags => (Dns.checkForRevokedKeys anchors tags).1

/-- Runs from an empty table. An operation may meet the entries of the hash
    table in any order. -/
def managerSystem : System Manager ManagerOp where
  init := fun m => m.anchors = ∅
  step := fun m op m' => op.Monotone m.clock ∧ ∃ anchors, m.anchors.Reordered anchors ∧
    m' = ⟨op.apply dsDigest config anchors, op.clockAfter m.clock⟩

/-! ## Section 2: What a step does to one anchor -/

/-- The operation is a `trust_anchor_check` of `keyId` whose digest is that of
    `publicKey`, and it puts the anchor of `keyId`, which stores this key,
    into `Pending` at `now`. -/
def EntersPending (m : Manager) (op : ManagerOp) (keyId : String) (publicKey : List UInt8)
    (now : Nat) : Prop :=
  ∃ keyTag algorithm digestType digest keytags before after,
    op = .trustAnchorCheck keyTag algorithm digestType digest keytags now ∧
    keyId = TrustAnchor.generateKeyId keyTag algorithm ∧
    dsDigest digestType 257 3 algorithm publicKey = .ok digest ∧
    m.anchors.lookup keyId = some before ∧ before.publicKey = publicKey ∧
    before.state ≠ .pending ∧
    (op.apply dsDigest config m.anchors).lookup keyId = some after ∧
    after.publicKey = publicKey ∧ after.state = .pending ∧ after.pendingSince = some now

/-- The operation promotes the anchor of `keyId`, which stores `publicKey` and
    has been pending since `since`, at `now`: the observation period is
    over. -/
def Promotes (m : Manager) (op : ManagerOp) (keyId : String) (publicKey : List UInt8)
    (since now : Nat) : Prop :=
  m.clock ≤ now ∧ since + secsOfDays config.pendingObservationDays ≤ now ∧
  ∃ before after,
    m.anchors.lookup keyId = some before ∧ before.publicKey = publicKey ∧
    before.state = .pending ∧ before.pendingSince = some since ∧
    (op.apply dsDigest config m.anchors).lookup keyId = some after ∧
    after.publicKey = publicKey ∧ after.state = .valid ∧ after.trustPoint = now

/-- What a step can do to the anchor `a` of `keyId`. -/
inductive AnchorMove (m : Manager) (op : ManagerOp) (keyId : String) (a a' : TrustAnchor) :
    Prop where
  | stays : a'.state = a.state → a'.trustPoint = a.trustPoint →
      a'.pendingSince = a.pendingSince → AnchorMove m op keyId a a'
  | falls : a'.state ≠ .pending → a'.state ≠ .valid → a'.trustPoint = a.trustPoint →
      a'.pendingSince = a.pendingSince → AnchorMove m op keyId a a'
  | reappears (now : Nat) : a.trustPoint ≠ 0 → a'.state = .pending →
      a'.trustPoint = a.trustPoint → a'.pendingSince = some now →
      now = op.clockAfter m.clock → AnchorMove m op keyId a a'
  | passes (now : Nat) : EntersPending dsDigest config m op keyId a.publicKey now →
      a'.state = .pending → a'.trustPoint = a.trustPoint → a'.pendingSince = some now →
      now = op.clockAfter m.clock → AnchorMove m op keyId a a'
  | promoted (since now : Nat) : a.state = .pending → a.pendingSince = some since →
      (since ≤ m.clock → Promotes dsDigest config m op keyId a.publicKey since now) →
      a'.state = .valid → a'.pendingSince = some since → a'.trustPoint = now →
      AnchorMove m op keyId a a'

variable {dsDigest config}

theorem ManagerOp.Monotone.clock_le {clock : Nat} {op : ManagerOp} (h : op.Monotone clock) :
    clock ≤ op.clockAfter clock := by
  cases op with
  | observeDnskeyAtRoot _ _ _ _ now => exact h
  | trustAnchorCheck _ _ _ _ _ now => exact h
  | processRfc5011Updates now expiryNow done => exact Nat.le_trans h.1 h.2.1
  | removeAnchor _ _ => exact Nat.le_refl _
  | checkForRevokedKeys tags =>
    simp only [ManagerOp.Monotone, List.pairwise_cons] at h
    simp only [ManagerOp.clockAfter]
    rcases List.eq_nil_or_concat (tags.map Prod.snd) with hnil | ⟨init, last, hlast⟩
    · rw [hnil]
      exact Nat.le_refl _
    · rw [hlast, List.concat_eq_append, List.getLastD_concat]
      exact h.1 last (by rw [hlast]; simp)

/-- `observe_dnskey_at_root` of a known key. -/
theorem observe_cases (a : TrustAnchor) (keyTag : UInt16) (publicKey : List UInt8)
    (isRevoked : Bool) (now : Nat) :
    let a' := (a.observe keyTag publicKey isRevoked now).1
    a'.publicKey = a.publicKey ∧ a'.trustPoint = a.trustPoint ∧
    ((a'.state = a.state ∧ a'.pendingSince = a.pendingSince) ∨
      (a'.state = .revoked ∧ a'.pendingSince = a.pendingSince) ∨
      (a.trustPoint ≠ 0 ∧ a'.state = .pending ∧ a'.pendingSince = some now)) := by
  simp only [TrustAnchor.observe]
  split_ifs with hkey hrev hnot hrevoked hmissing htrust
  · exact ⟨rfl, rfl, Or.inl ⟨rfl, rfl⟩⟩
  · exact ⟨rfl, rfl, Or.inr (Or.inl ⟨rfl, rfl⟩)⟩
  · exact ⟨rfl, rfl, Or.inl ⟨rfl, rfl⟩⟩
  · exact ⟨rfl, rfl, Or.inl ⟨rfl, rfl⟩⟩
  · exact ⟨rfl, rfl, Or.inl ⟨rfl, rfl⟩⟩
  · exact ⟨rfl, rfl, Or.inr (Or.inr ⟨htrust, rfl, rfl⟩)⟩
  · exact ⟨rfl, rfl, Or.inl ⟨rfl, rfl⟩⟩

/-- The digest check keeps the anchor, or accepts it with a matching digest. -/
theorem verifyDigest_cases (a accepted : TrustAnchor) (keyTag : UInt16)
    (algorithm digestType : UInt8) (digest : List UInt8) (mismatch : String) :
    (a.verifyDigest dsDigest accepted keyTag algorithm digestType digest mismatch).1 = a ∨
    (dsDigest digestType 257 3 algorithm a.publicKey = .ok digest ∧
      (a.verifyDigest dsDigest accepted keyTag algorithm digestType digest mismatch).1 =
        accepted) := by
  unfold TrustAnchor.verifyDigest
  cases hd : dsDigest digestType 257 3 algorithm a.publicKey with
  | error e => exact Or.inl rfl
  | ok computed =>
    by_cases hne : computed ≠ digest
    · simp [hne]
    · simp only [ne_eq, not_not] at hne
      simp [hne]

/-- Everything that `trust_anchor_check` can do to a known key. -/
theorem check_eq (a : TrustAnchor) (keyTag : UInt16) (algorithm digestType : UInt8)
    (digest : List UInt8) (keytags : Option (List UInt16)) (now : Nat) :
    let a' := (a.check dsDigest config keyTag algorithm digestType digest keytags now).1
    a' = a ∨
    (a.state = .seen ∧ dsDigest digestType 257 3 algorithm a.publicKey = .ok digest ∧
      a' = { a with state := .pending, pendingSince := some now }) ∨
    (a.state = .missing ∧ dsDigest digestType 257 3 algorithm a.publicKey = .ok digest ∧
      a' = { a with state := .pending, pendingSince := some now, firstSeenAt := some now }) ∨
    (a.state = .pending ∧
      secsOfDays config.pendingObservationDays ≤ now - a.pendingSince.getD now ∧
      a' = { a with state := .valid, trustPoint := now }) := by
  intro a'
  cases hst : a.state with
  -- these states only read the anchor
  | valid => exact Or.inl (by simp [a', TrustAnchor.check, hst])
  | revoked => exact Or.inl (by simp [a', TrustAnchor.check, hst])
  | removed => exact Or.inl (by simp [a', TrustAnchor.check, hst])
  | seen =>
    have heq : a' = (a.verifyDigest dsDigest { a with state := .pending, pendingSince := some now }
        keyTag algorithm digestType digest "digest mismatch").1 := by
      simp [a', TrustAnchor.check, hst]
    rw [heq]
    rcases verifyDigest_cases a { a with state := .pending, pendingSince := some now } keyTag
      algorithm digestType digest "digest mismatch" with hkeep | ⟨hok, hacc⟩
    · exact Or.inl hkeep
    · exact Or.inr (Or.inl ⟨rfl, hok, hacc⟩)
  | missing =>
    -- a missing anchor that was never trusted is answered before its digest is looked at
    by_cases htp : a.trustPoint = 0
    · exact Or.inl (by simp [a', TrustAnchor.check, hst, htp])
    · have heq : a' = (a.verifyDigest dsDigest
          { a with state := .pending, pendingSince := some now, firstSeenAt := some now }
          keyTag algorithm digestType digest "digest mismatch on missing key re-appearance").1 := by
        simp [a', TrustAnchor.check, hst, htp]
      rw [heq]
      rcases verifyDigest_cases a
        { a with state := .pending, pendingSince := some now, firstSeenAt := some now } keyTag
        algorithm digestType digest "digest mismatch on missing key re-appearance" with
        hkeep | ⟨hok, hacc⟩
      · exact Or.inl hkeep
      · exact Or.inr (Or.inr (Or.inl ⟨rfl, hok, hacc⟩))
  | pending =>
    -- no digest is compared on this branch
    have heq : a' = if now - a.pendingSince.getD now ≥ secsOfDays config.pendingObservationDays then
        (if (keytags.map fun tags => tags.contains keyTag) = some false then a
          else { a with state := .valid, trustPoint := now }) else a := by
      simp only [a', TrustAnchor.check, hst]
      split_ifs <;> rfl
    -- the period is over but the key is absent, it is over, it is not over
    split_ifs at heq with hlong habsent
    · exact Or.inl heq
    · exact Or.inr (Or.inr (Or.inr ⟨rfl, hlong, heq⟩))
    · exact Or.inl heq

/-- `trust_anchor_check` of a known key. -/
theorem check_cases (a : TrustAnchor) (keyTag : UInt16) (algorithm digestType : UInt8)
    (digest : List UInt8) (keytags : Option (List UInt16)) (now : Nat)
    (hpend : a.state = .pending → a.pendingSince ≠ none) :
    let a' := (a.check dsDigest config keyTag algorithm digestType digest keytags now).1
    a' = a ∨
    (dsDigest digestType 257 3 algorithm a.publicKey = .ok digest ∧ a.state ≠ .pending ∧
      a'.publicKey = a.publicKey ∧ a'.state = .pending ∧ a'.trustPoint = a.trustPoint ∧
      a'.pendingSince = some now) ∨
    (∃ since, a.state = .pending ∧ a.pendingSince = some since ∧
      secsOfDays config.pendingObservationDays ≤ now - since ∧
      a' = { a with state := .valid, trustPoint := now }) := by
  intro a'
  rcases check_eq a keyTag algorithm digestType digest keytags now with
    hsame | ⟨hst, hok, hacc⟩ | ⟨hst, hok, hacc⟩ | ⟨hst, hlong, hvalid⟩
  · exact Or.inl hsame
  · exact Or.inr (Or.inl ⟨hok, by simp [hst], by simp [a', hacc]⟩)
  · exact Or.inr (Or.inl ⟨hok, by simp [hst], by simp [a', hacc]⟩)
  · -- `pending_since` is there, so the default of the code, an age of zero, does not matter
    obtain ⟨since, hsince⟩ := Option.ne_none_iff_exists'.mp (hpend hst)
    rw [hsince, Option.getD_some] at hlong
    exact Or.inr (Or.inr ⟨since, hst, hsince, hlong, hvalid⟩)

/-- Everything that `process_rfc5011_updates` can do to an anchor that it
    keeps. -/
theorem update_eq_some {a a' : TrustAnchor} {now expiryNow : Nat}
    (h : (a.update config now expiryNow).1 = some a') :
    a' = a ∨
    (∃ since, a.state = .pending ∧ a.pendingSince = some since ∧
      secsOfDays config.pendingObservationDays ≤ now - since ∧
      a' = { a with state := .valid, trustPoint := now }) ∨
    (∃ revokedAt, a.state = .revoked ∧ a.revokedAt = some revokedAt ∧
      secsOfDays config.revocationGraceDays ≤ now - revokedAt ∧
      a' = { a with state := .removed }) ∨
    (a.state = .valid ∧ a.isExpired config.trustAnchorRetentionDays expiryNow = true ∧
      a' = { a with state := .missing }) := by
  unfold TrustAnchor.update at h
  cases hst : a.state with
  -- the loop passes over anchors that were only seen and over missing ones
  | seen => simp [hst] at h; exact Or.inl h.symm
  | missing => simp [hst] at h; exact Or.inl h.symm
  | pending =>
    cases hsince : a.pendingSince with
    | none => simp [hst, hsince] at h; exact Or.inl h.symm
    | some since =>
      simp only [hst, hsince] at h
      split_ifs at h with hlong
      · exact Or.inr (Or.inl ⟨since, rfl, rfl, hlong, (Option.some.inj h).symm⟩)
      · exact Or.inl (Option.some.inj h).symm
  | revoked =>
    cases hrevoked : a.revokedAt with
    | none => simp [hst, hrevoked] at h; exact Or.inl h.symm
    | some revokedAt =>
      simp only [hst, hrevoked] at h
      split_ifs at h with hlong
      · exact Or.inr (Or.inr (Or.inl ⟨revokedAt, rfl, rfl, hlong, (Option.some.inj h).symm⟩))
      · exact Or.inl (Option.some.inj h).symm
  | removed =>
    simp only [hst] at h
    split at h
    · split_ifs at h
      exact Or.inl (Option.some.inj h).symm
    · exact Or.inl (Option.some.inj h).symm
  | valid =>
    simp only [hst] at h
    split_ifs at h with hexpired
    · exact Or.inr (Or.inr (Or.inr ⟨rfl, hexpired, (Option.some.inj h).symm⟩))
    · exact Or.inl (Option.some.inj h).symm

/-- The loop body of `process_rfc5011_updates`. -/
theorem update_cases {a a' : TrustAnchor} {now expiryNow : Nat}
    (h : (a.update config now expiryNow).1 = some a') :
    a' = a ∨
    (a'.publicKey = a.publicKey ∧ a'.state ≠ .pending ∧ a'.state ≠ .valid ∧
      a'.trustPoint = a.trustPoint ∧ a'.pendingSince = a.pendingSince) ∨
    (∃ since, a.state = .pending ∧ a.pendingSince = some since ∧
      secsOfDays config.pendingObservationDays ≤ now - since ∧
      a' = { a with state := .valid, trustPoint := now }) := by
  rcases update_eq_some h with hsame | hpromoted | ⟨_, -, -, -, hremoved⟩ | ⟨-, -, hmissing⟩
  · exact Or.inl hsame
  · exact Or.inr (Or.inr hpromoted)
  · subst hremoved
    exact Or.inr (Or.inl ⟨rfl, by simp, by simp, rfl, rfl⟩)
  · subst hmissing
    exact Or.inr (Or.inl ⟨rfl, by simp, by simp, rfl, rfl⟩)

/-- `check_for_revoked_keys` revokes anchors and changes nothing else that
    trust depends on. -/
theorem checkForRevokedKeys_cases (tags : List (UInt16 × Nat)) (t : AnchorTable) {k : String}
    {a' : TrustAnchor} (h : (checkForRevokedKeys t tags).1.lookup k = some a') :
    ∃ a, t.lookup k = some a ∧ a'.publicKey = a.publicKey ∧ a'.trustPoint = a.trustPoint ∧
      a'.pendingSince = a.pendingSince ∧ (a'.state = a.state ∨ a'.state = .revoked) := by
  -- each tag revokes at most one anchor, and a later tag may meet the same one again
  induction tags generalizing t with
  | nil => exact ⟨a', h, rfl, rfl, rfl, Or.inl rfl⟩
  | cons tag rest ih =>
    obtain ⟨keyTag, now⟩ := tag
    simp only [checkForRevokedKeys] at h
    cases hfind : t.modifyFirst (fun a => a.keyTag == keyTag)
        (fun a => { a with state := .revoked, revokedAt := some now }) with
    | none =>
      simp only [hfind] at h
      exact ih t h
    | some t' =>
      simp only [hfind] at h
      obtain ⟨k₀, b, hb, -, rfl⟩ := Table.modifyFirst_eq_some hfind
      obtain ⟨c, hc, hpk, htp, hps, hst⟩ := ih _ h
      rw [Table.lookup_insert_eq] at hc
      split_ifs at hc with hk
      · obtain rfl := Option.some.inj hc
        subst hk
        refine ⟨b, hb, hpk, htp, hps, Or.inr ?_⟩
        rcases hst with hst | hst <;> exact hst
      · exact ⟨c, hc, hpk, htp, hps, hst⟩

/-- What `trust_anchor_check` leaves in the table. -/
theorem lookup_trustAnchorCheck (t : AnchorTable) (keyTag : UInt16) (algorithm digestType : UInt8)
    (digest : List UInt8) (keytags : Option (List UInt16)) (now : Nat) (k : String) :
    (trustAnchorCheck dsDigest config t keyTag algorithm digestType digest keytags now).1.lookup k =
      if k = TrustAnchor.generateKeyId keyTag algorithm then
        (t.lookup k).map fun a =>
          (a.check dsDigest config keyTag algorithm digestType digest keytags now).1
      else t.lookup k := by
  unfold trustAnchorCheck
  cases hl : t.lookup (TrustAnchor.generateKeyId keyTag algorithm) with
  | none =>
    by_cases hk : k = TrustAnchor.generateKeyId keyTag algorithm
    · subst hk
      simp [hl]
    · simp [hk, hl]
  | some a =>
    by_cases hk : k = TrustAnchor.generateKeyId keyTag algorithm
    · subst hk
      simp [hl]
    · simp [hk, hl]

/-- **Inversion of a step.** An anchor found after a step is new and `Seen`,
    or it was there before, under the same key, and made an `AnchorMove`. -/
theorem step_moves {m m' : Manager} {op : ManagerOp}
    (hstep : (managerSystem dsDigest config).step m op m') {k : String} {a' : TrustAnchor}
    (h : m'.anchors.lookup k = some a')
    (hpend : ∀ a, m.anchors.lookup k = some a → a.state = .pending → a.pendingSince ≠ none) :
    (a'.state = .seen ∧ a'.trustPoint = 0 ∧ a'.pendingSince = none) ∨
    ∃ a, m.anchors.lookup k = some a ∧ a'.publicKey = a.publicKey ∧
      AnchorMove dsDigest config m op k a a' := by
  obtain ⟨hmono, t, hperm, rfl⟩ := hstep
  -- the order in which an operation meets the entries does not change what a key stores
  have hlook := hperm.lookup
  cases op with
  | observeDnskeyAtRoot keyTag algorithm publicKey isRevoked now =>
    simp only [ManagerOp.apply, observeDnskeyAtRoot] at h
    -- a deprecated algorithm returns before the table is touched
    by_cases hold : algorithm ∈ [0, 3, 5, 6]
    · rw [if_pos hold] at h
      exact Or.inr ⟨a', (hlook k) ▸ h, rfl, .stays rfl rfl rfl⟩
    · rw [if_neg hold] at h
      cases hl : t.lookup (TrustAnchor.generateKeyId keyTag algorithm) with
      | none =>
        simp only [hl] at h
        split_ifs at h with hrev
        · exact Or.inr ⟨a', (hlook k) ▸ h, rfl, .stays rfl rfl rfl⟩
        · rw [Table.lookup_insert_eq] at h
          split_ifs at h with hk
          · obtain rfl := Option.some.inj h
            exact Or.inl ⟨rfl, rfl, rfl⟩
          · exact Or.inr ⟨a', (hlook k) ▸ h, rfl, .stays rfl rfl rfl⟩
      | some a =>
        simp only [hl, Table.lookup_insert_eq] at h
        split_ifs at h with hk
        · obtain rfl := Option.some.inj h
          subst hk
          obtain ⟨hpk, htp, hcases⟩ := observe_cases a keyTag publicKey isRevoked now
          refine Or.inr ⟨a, (hlook _) ▸ hl, hpk, ?_⟩
          rcases hcases with ⟨hst, hps⟩ | ⟨hst, hps⟩ | ⟨hne, hst, hps⟩
          · exact .stays hst htp hps
          · exact .falls (by rw [hst]; decide) (by rw [hst]; decide) htp hps
          · exact .reappears now hne hst htp hps rfl
        · exact Or.inr ⟨a', (hlook k) ▸ h, rfl, .stays rfl rfl rfl⟩
  | trustAnchorCheck keyTag algorithm digestType digest keytags now =>
    have hafter := @lookup_trustAnchorCheck dsDigest config m.anchors keyTag
      algorithm digestType digest keytags now k
    simp only [ManagerOp.apply, lookup_trustAnchorCheck, hlook k] at h
    split_ifs at h with hk
    · obtain ⟨a, ha, rfl⟩ := Option.map_eq_some_iff.mp h
      rw [if_pos hk, ha, Option.map_some] at hafter
      rcases @check_cases dsDigest config a keyTag algorithm digestType
        digest keytags now (hpend a ha) with hsame | ⟨hok, hnp, hpk, hst, htp, hps⟩ |
          ⟨since, hst, hps, hlong, heq⟩
      · exact Or.inr ⟨a, ha, by rw [hsame], .stays (by rw [hsame]) (by rw [hsame]) (by rw [hsame])⟩
      · refine Or.inr ⟨a, ha, hpk, .passes now ?_ hst htp hps rfl⟩
        exact ⟨keyTag, algorithm, digestType, digest, keytags, a, _, rfl, hk, hok, ha, rfl, hnp,
          hafter, hpk, hst, hps⟩
      · refine Or.inr ⟨a, ha, by rw [heq], .promoted since now hst hps ?_ (by rw [heq])
          (by rw [heq]; exact hps) (by rw [heq])⟩
        -- `now - since` is cut off at zero, so the bound needs `since` not to be ahead of the clock
        intro hle
        have hnow : m.clock ≤ now := hmono
        exact ⟨hnow, by omega, a, _, ha, rfl, hst, hps,
          hafter, by rw [heq], by rw [heq], by rw [heq]⟩
    · exact Or.inr ⟨a', h, rfl, .stays rfl rfl rfl⟩
  | processRfc5011Updates now expiryNow done =>
    -- the loop runs over the table once and sees each anchor as it was before the call
    have hafter := Table.lookup_traverse m.anchors
      (fun keyId a => (a.update config now (expiryNow keyId)).1) k
    simp only [ManagerOp.apply, processRfc5011Updates, Table.lookup_traverse, hlook k] at h
    obtain ⟨a, ha, hupd⟩ := Option.bind_eq_some_iff.mp h
    rw [ha, Option.bind_some, hupd] at hafter
    rcases update_cases hupd with rfl | ⟨hpk, hnp, hnv, htp, hps⟩ | ⟨since, hst, hps, hlong, rfl⟩
    · exact Or.inr ⟨_, ha, rfl, .stays rfl rfl rfl⟩
    · exact Or.inr ⟨a, ha, hpk, .falls hnp hnv htp hps⟩
    · refine Or.inr ⟨a, ha, rfl, .promoted since now hst hps ?_ rfl hps rfl⟩
      intro hle
      have hnow : m.clock ≤ now := hmono.1
      exact ⟨hnow, by omega, a, _, ha, rfl, hst, hps, hafter, rfl, rfl, rfl⟩
  | removeAnchor keyId saved =>
    simp only [ManagerOp.apply, removeAnchor] at h
    cases hl : t.lookup keyId with
    | none =>
      simp only [hl] at h
      exact Or.inr ⟨a', (hlook k) ▸ h, rfl, .stays rfl rfl rfl⟩
    | some a =>
      simp only [hl, Table.lookup_insert_eq] at h
      split_ifs at h with hk
      · obtain rfl := Option.some.inj h
        subst hk
        exact Or.inr ⟨a, (hlook _) ▸ hl, rfl, .falls (by simp) (by simp) rfl rfl⟩
      · exact Or.inr ⟨a', (hlook k) ▸ h, rfl, .stays rfl rfl rfl⟩
  | checkForRevokedKeys tags =>
    obtain ⟨a, ha, hpk, htp, hps, hst⟩ := checkForRevokedKeys_cases tags t h
    refine Or.inr ⟨a, (hlook k) ▸ ha, hpk, ?_⟩
    rcases hst with hst | hst
    · exact .stays hst htp hps
    · exact .falls (by rw [hst]; decide) (by rw [hst]; decide) htp hps

/-! ## Section 3: The invariant over runs -/

variable (dsDigest config)

/-- In the run, a passed digest check put the key into `Pending`. -/
def Checked (tr : List (Manager × ManagerOp)) (keyId : String) (publicKey : List UInt8) : Prop :=
  ∃ m op now, (m, op) ∈ tr ∧ EntersPending dsDigest config m op keyId publicKey now

/-- In the run, the key was promoted after such a check. -/
def PromotedAt (tr : List (Manager × ManagerOp)) (keyId : String) (publicKey : List UInt8)
    (since now : Nat) : Prop :=
  ∃ pre m op post, tr = pre ++ (m, op) :: post ∧ Checked dsDigest config pre keyId publicKey ∧
    Promotes dsDigest config m op keyId publicKey since now

/-- The invariant, for the anchor `a` of `keyId` in a state with clock
    `clock` that the run `tr` has reached. -/
structure Earned (tr : List (Manager × ManagerOp)) (clock : Nat) (keyId : String)
    (a : TrustAnchor) : Prop where
  since_le : ∀ since, a.pendingSince = some since → since ≤ clock
  pending_since : a.state = .pending → a.pendingSince ≠ none
  checked : a.state = .pending ∨ a.state = .valid ∨ a.trustPoint ≠ 0 →
    Checked dsDigest config tr keyId a.publicKey
  promoted : a.state = .valid → ∃ since, a.pendingSince = some since ∧
    PromotedAt dsDigest config tr keyId a.publicKey since a.trustPoint

variable {dsDigest config}

theorem Checked.snoc {tr : List (Manager × ManagerOp)} {k : String} {pk : List UInt8}
    (h : Checked dsDigest config tr k pk) (x : Manager × ManagerOp) :
    Checked dsDigest config (tr ++ [x]) k pk := by
  obtain ⟨m, op, now, hmem, henters⟩ := h
  exact ⟨m, op, now, List.mem_append_left _ hmem, henters⟩

theorem PromotedAt.snoc {tr : List (Manager × ManagerOp)} {k : String} {pk : List UInt8}
    {since now : Nat} (h : PromotedAt dsDigest config tr k pk since now)
    (x : Manager × ManagerOp) : PromotedAt dsDigest config (tr ++ [x]) k pk since now := by
  obtain ⟨pre, m, op, post, rfl, hchecked, hpromotes⟩ := h
  exact ⟨pre, m, op, post ++ [x], by simp, hchecked, hpromotes⟩

/-- **Step lemma.** A move keeps the invariant. -/
theorem AnchorMove.earned {tr : List (Manager × ManagerOp)} {m : Manager} {op : ManagerOp}
    {k : String} {a a' : TrustAnchor} (h : Earned dsDigest config tr m.clock k a)
    (hclock : m.clock ≤ op.clockAfter m.clock) (hpk : a'.publicKey = a.publicKey)
    (hmove : AnchorMove dsDigest config m op k a a') :
    Earned dsDigest config (tr ++ [(m, op)]) (op.clockAfter m.clock) k a' := by
  cases hmove with
  | stays hst htp hps =>
    refine ⟨?_, ?_, ?_, ?_⟩
    · intro since hsince
      exact Nat.le_trans (h.since_le since (hps ▸ hsince)) hclock
    · rw [hst, hps]
      exact h.pending_since
    · rw [hst, htp, hpk]
      exact fun hs => (h.checked hs).snoc _
    · rw [hst, hps, htp, hpk]
      intro hv
      obtain ⟨since, hsince, hprom⟩ := h.promoted hv
      exact ⟨since, hsince, hprom.snoc _⟩
  | falls hnp hnv htp hps =>
    refine ⟨?_, fun hp => absurd hp hnp, ?_, fun hv => absurd hv hnv⟩
    · intro since hsince
      exact Nat.le_trans (h.since_le since (hps ▸ hsince)) hclock
    · rw [htp, hpk]
      rintro (hp | hv | hne)
      · exact absurd hp hnp
      · exact absurd hv hnv
      · exact (h.checked (Or.inr (Or.inr hne))).snoc _
  | reappears now hne hst htp hps hnow =>
    -- a nonzero trust point is left over from a promotion
    refine ⟨?_, fun _ => by simp [hps], ?_, fun hv => by simp [hst] at hv⟩
    · intro since hsince
      rw [hps] at hsince
      exact Nat.le_of_eq ((Option.some.inj hsince).symm.trans hnow)
    · intro _
      rw [hpk]
      exact (h.checked (Or.inr (Or.inr hne))).snoc _
  | passes now henters hst htp hps hnow =>
    -- this operation is the digest check that the invariant asks for
    refine ⟨?_, fun _ => by simp [hps], ?_, fun hv => by simp [hst] at hv⟩
    · intro since hsince
      rw [hps] at hsince
      exact Nat.le_of_eq ((Option.some.inj hsince).symm.trans hnow)
    · intro _
      rw [hpk]
      exact ⟨m, op, now, by simp, henters⟩
  | promoted since now hpend hsince hprom hst hps htp =>
    -- the check that put the anchor into `Pending` lies in `tr`, before this operation
    have hle := h.since_le since hsince
    have hchecked := h.checked (Or.inl hpend)
    refine ⟨?_, fun hp => by simp [hst] at hp, fun _ => hpk ▸ hchecked.snoc _, ?_⟩
    · intro since' hsince'
      rw [hps] at hsince'
      obtain rfl := Option.some.inj hsince'
      exact Nat.le_trans hle hclock
    · intro _
      exact ⟨since, hps, tr, m, op, [], rfl, hpk ▸ hchecked, by rw [hpk, htp]; exact hprom hle⟩

/-- **Run lemma.** -/
theorem earned_of_exec {tr : List (Manager × ManagerOp)} {m : Manager}
    (h : (managerSystem dsDigest config).Exec tr m) :
    ∀ k a, m.anchors.lookup k = some a → Earned dsDigest config tr m.clock k a := by
  refine System.Exec.history
    (fun tr m => ∀ k a, m.anchors.lookup k = some a → Earned dsDigest config tr m.clock k a)
    ?_ ?_ h
  · intro m hinit k a ha
    rw [show m.anchors = ∅ from hinit, AList.lookup_empty] at ha
    exact absurd ha (by simp)
  · intro tr m op m' hinv hstep k a' ha'
    have hpend : ∀ a, m.anchors.lookup k = some a → a.state = .pending → a.pendingSince ≠ none :=
      fun a ha => (hinv k a ha).pending_since
    have hclock := hstep.1.clock_le
    have hclock' : m'.clock = op.clockAfter m.clock := by
      obtain ⟨-, t, -, rfl⟩ := hstep
      rfl
    rw [hclock']
    rcases step_moves hstep ha' hpend with ⟨hst, htp, hps⟩ | ⟨a, ha, hpk, hmove⟩
    · -- a new anchor claims nothing yet
      exact ⟨by simp [hps], by simp [hst], by simp [hst, htp], by simp [hst]⟩
    · exact hmove.earned (hinv k a ha) hclock hpk

end runs

/-- **Trust is earned.** In every run, a valid anchor was earlier put into
    `Pending` by a digest check of its stored key, and when it was promoted,
    at its trust point, the observation period had elapsed since its
    `pending_since`. -/
theorem valid_anchor_earned (dsDigest : DsDigest) (config : TrustAnchorConfig)
    {tr : List (Manager × ManagerOp)} {m : Manager}
    (h : (managerSystem dsDigest config).Exec tr m) {keyId : String} {a : TrustAnchor}
    (ha : m.anchors.lookup keyId = some a) (hvalid : a.state = .valid) :
    ∃ tr₁ m₁ op₁ tr₂ m₂ op₂ tr₃ checkedAt since,
      tr = tr₁ ++ (m₁, op₁) :: tr₂ ++ (m₂, op₂) :: tr₃ ∧
      EntersPending dsDigest config m₁ op₁ keyId a.publicKey checkedAt ∧
      Promotes dsDigest config m₂ op₂ keyId a.publicKey since a.trustPoint ∧
      a.pendingSince = some since ∧
      since + secsOfDays config.pendingObservationDays ≤ a.trustPoint ∧
      (config.pendingObservationDays * 86400 < 2 ^ 64 →
        since + config.pendingObservationDays * 86400 ≤ a.trustPoint) := by
  obtain ⟨since, hsince, pre, m₂, op₂, post, rfl, ⟨m₁, op₁, now, hmem, henters⟩, hprom⟩ :=
    (earned_of_exec h keyId a ha).promoted hvalid
  obtain ⟨tr₁, tr₂, rfl⟩ := List.append_of_mem hmem
  refine ⟨tr₁, m₁, op₁, tr₂, m₂, op₂, post, now, since, rfl, henters, hprom, hsince, hprom.2.1, ?_⟩
  intro hfit
  rw [← secsOfDays_eq hfit]
  exact hprom.2.1

/-- A digest that is the key itself. -/
def plainDigest : DsDigest := fun _ _ _ _ publicKey => .ok publicKey

/-- A run of three operations in which key 7 is seen, checked and promoted
    after an observation period of one day. -/
theorem valid_anchor_earned_key_seven :
    let config : TrustAnchorConfig := ⟨1, 30, 60, 7⟩
    let op₁ : ManagerOp := .observeDnskeyAtRoot 7 8 [1, 2] false 100
    let op₂ : ManagerOp := .trustAnchorCheck 7 8 2 [1, 2] none 200
    let op₃ : ManagerOp := .processRfc5011Updates 86600 (fun _ => 86600) 86600
    let t₁ := op₁.apply plainDigest config ∅
    let t₂ := op₂.apply plainDigest config t₁
    let tr := [(⟨∅, 0⟩, op₁), (⟨t₁, 100⟩, op₂), (⟨t₂, 200⟩, op₃)]
    ∃ tr₁ m₁ op₁ tr₂ m₂ op₂ tr₃ checkedAt since,
      tr = tr₁ ++ (m₁, op₁) :: tr₂ ++ (m₂, op₂) :: tr₃ ∧
      EntersPending plainDigest config m₁ op₁ "7-8" [1, 2] checkedAt ∧
      Promotes plainDigest config m₂ op₂ "7-8" [1, 2] since 86600 ∧
      some 200 = some since ∧ since + secsOfDays 1 ≤ 86600 ∧
      (1 * 86400 < 2 ^ 64 → since + 1 * 86400 ≤ 86600) := by
  intro config op₁ op₂ op₃ t₁ t₂ tr
  have h₀ : (managerSystem plainDigest config).Exec [] ⟨∅, 0⟩ := .nil rfl
  have h₁ : (managerSystem plainDigest config).step ⟨∅, 0⟩ op₁ ⟨t₁, 100⟩ :=
    ⟨Nat.zero_le _, ∅, .refl _, rfl⟩
  have h₂ : (managerSystem plainDigest config).step ⟨t₁, 100⟩ op₂ ⟨t₂, 200⟩ :=
    ⟨show 100 ≤ 200 by omega, t₁, .refl _, rfl⟩
  have h₃ : (managerSystem plainDigest config).step ⟨t₂, 200⟩ op₃
      ⟨op₃.apply plainDigest config t₂, 86600⟩ :=
    ⟨⟨show 200 ≤ 86600 by omega, Nat.le_refl _, fun _ => ⟨Nat.le_refl _, Nat.le_refl _⟩⟩,
      t₂, .refl _, rfl⟩
  have hexec := ((h₀.snoc h₁).snoc h₂).snoc h₃
  have hvalid : (op₃.apply plainDigest config t₂).lookup "7-8" =
      some ⟨"7-8", 7, 8, [1, 2], .valid, 100, 100, 86600, some 100, some 200, none, none⟩ := by
    decide +kernel
  exact valid_anchor_earned plainDigest config hexec hvalid rfl

end Synvoid.Dns
