import Synvoid.Dns.TrustEarned

/-! # The life cycle of a trust anchor

    Runs of the whole manager: the RFC 5011 operations, `add_anchor`, and the
    loading of anchors from the saved table or from a file. Clock readings are
    unconstrained unless a result asks for `Monotone` ones.

    * Revocation is final (`revocation_final`): an anchor that is revoked or
      removed stays so until `process_rfc5011_updates` purges it.
    * The timestamp of a state may be missing (`remove_anchor_forgets_revoked_at`),
      and then the updater passes the anchor over. `remove_anchor` does not
      set `revoked_at`, and the updater does not set `removed_at` when the
      grace period is over. The timestamps are there in exactly the runs that
      do not come to one of these two places (`timestamps_present_iff`).
-/

namespace Synvoid.Dns

open Synvoid.Framework

/-! ## Section 1: Operations and runs -/

/-- All operations that change the table. -/
inductive LifecycleOp where
  | manager (op : ManagerOp)
  | addAnchor (keyId : String) (keyTag : UInt16) (algorithm : UInt8) (publicKey : List UInt8)
      (now : Nat) (saved : Except String Unit)
  | loadAnchors (rows : List TrustAnchor)
  | loadInitialAnchorsFromFile (records : List (UInt16 × UInt8 × List UInt8)) (now : Nat)

/-- The operation reads anchors from a file. -/
def LifecycleOp.IsLoad : LifecycleOp → Prop
  | .loadAnchors _ | .loadInitialAnchorsFromFile _ _ => True
  | _ => False

/-- The readings of an operation never go back behind `clock`. -/
def LifecycleOp.Monotone (clock : Nat) : LifecycleOp → Prop
  | .manager op => op.Monotone clock
  | .addAnchor _ _ _ _ now _ => clock ≤ now
  | .loadAnchors _ => True
  | .loadInitialAnchorsFromFile _ now => clock ≤ now

/-- The last reading of the operation. -/
def LifecycleOp.clockAfter (clock : Nat) : LifecycleOp → Nat
  | .manager op => op.clockAfter clock
  | .addAnchor _ _ _ _ now _ => now
  | .loadAnchors _ => clock
  | .loadInitialAnchorsFromFile _ now => now

section runs
variable (dsDigest : DsDigest) (config : TrustAnchorConfig)

/-- The table after an operation. -/
def LifecycleOp.apply (anchors : AnchorTable) : LifecycleOp → AnchorTable
  | .manager op => op.apply dsDigest config anchors
  | .addAnchor keyId keyTag algorithm publicKey now saved =>
      (Dns.addAnchor anchors keyId keyTag algorithm publicKey now saved).1
  | .loadAnchors rows => Dns.loadAnchors anchors rows
  | .loadInitialAnchorsFromFile records now =>
      Dns.loadInitialAnchorsFromFile anchors now records

/-- Runs from an empty table whose operations are all `allowed` at the clock
    they start from. -/
def lifecycleSystem (allowed : Nat → LifecycleOp → Prop) : System Manager LifecycleOp where
  init := fun m => m.anchors = ∅
  step := fun m op m' => allowed m.clock op ∧ ∃ anchors, m.anchors.Reordered anchors ∧
    m' = ⟨op.apply dsDigest config anchors, op.clockAfter m.clock⟩

end runs

/-- Runs with any clock readings. -/
def anyOp : Nat → LifecycleOp → Prop := fun _ _ => True

/-! ## Section 2: What an operation does to one anchor -/

variable {dsDigest : DsDigest} {config : TrustAnchorConfig}

theorem lookup_observeDnskeyAtRoot (t : AnchorTable) (keyTag : UInt16) (algorithm : UInt8)
    (publicKey : List UInt8) (isRevoked : Bool) (now : Nat) (k : String) :
    (observeDnskeyAtRoot t keyTag algorithm publicKey isRevoked now).1.lookup k = t.lookup k ∨
    k = TrustAnchor.generateKeyId keyTag algorithm ∧
      ((∃ a, t.lookup k = some a ∧
        (observeDnskeyAtRoot t keyTag algorithm publicKey isRevoked now).1.lookup k =
          some (a.observe keyTag publicKey isRevoked now).1) ∨
      t.lookup k = none ∧ isRevoked = false ∧
        (observeDnskeyAtRoot t keyTag algorithm publicKey isRevoked now).1.lookup k =
          some { keyId := k, keyTag, algorithm, publicKey, state := .seen, addedAt := now,
                 lastSeen := now, trustPoint := 0, firstSeenAt := some now, pendingSince := none,
                 revokedAt := none, removedAt := none }) := by
  unfold observeDnskeyAtRoot
  by_cases hold : algorithm ∈ [0, 3, 5, 6]
  · rw [if_pos hold]
    exact Or.inl rfl
  · rw [if_neg hold]
    cases hl : t.lookup (TrustAnchor.generateKeyId keyTag algorithm) with
    | some a =>
      simp only [hl, Table.lookup_insert_eq]
      by_cases hk : k = TrustAnchor.generateKeyId keyTag algorithm
      · subst hk
        exact Or.inr ⟨rfl, Or.inl ⟨a, hl, by simp⟩⟩
      · exact Or.inl (if_neg hk)
    | none =>
      simp only [hl]
      split_ifs with hrev
      · exact Or.inl rfl
      · rw [Table.lookup_insert_eq]
        by_cases hk : k = TrustAnchor.generateKeyId keyTag algorithm
        · subst hk
          exact Or.inr ⟨rfl, Or.inr ⟨hl, by simpa using hrev, by simp⟩⟩
        · exact Or.inl (if_neg hk)

theorem lookup_removeAnchor (t : AnchorTable) (keyId : String) (saved : Except String Unit)
    (k : String) :
    (removeAnchor t keyId saved).1.lookup k =
      if k = keyId then (t.lookup k).map fun a => { a with state := .revoked } else t.lookup k := by
  unfold removeAnchor
  by_cases hk : k = keyId
  · subst hk
    cases hl : t.lookup k with
    | none => simp [hl]
    | some a => simp
  · cases hl : t.lookup keyId with
    | none => simp [hk]
    | some a => simp [hk]

/-- Each tag revokes the first anchor it finds, so an anchor may be revoked
    several times over; only the last time remains. -/
theorem lookup_checkForRevokedKeys (tags : List (UInt16 × Nat)) (t : AnchorTable) (k : String) :
    (checkForRevokedKeys t tags).1.lookup k = t.lookup k ∨
    ∃ a now, t.lookup k = some a ∧
      (checkForRevokedKeys t tags).1.lookup k =
        some { a with state := .revoked, revokedAt := some now } := by
  induction tags generalizing t with
  | nil => exact Or.inl rfl
  | cons tag rest ih =>
    obtain ⟨keyTag, now⟩ := tag
    simp only [checkForRevokedKeys]
    cases hfind : t.modifyFirst (fun a => a.keyTag == keyTag)
        (fun a => { a with state := .revoked, revokedAt := some now }) with
    | none => exact ih t
    | some t' =>
      obtain ⟨k₀, b, hb, -, rfl⟩ := Table.modifyFirst_eq_some hfind
      simp only
      rcases ih (t.insert k₀ { b with state := .revoked, revokedAt := some now }) with
        hsame | ⟨a, later, ha, hafter⟩
      · rw [hsame, Table.lookup_insert_eq]
        by_cases hk : k = k₀
        · subst hk
          exact Or.inr ⟨b, now, hb, if_pos rfl⟩
        · exact Or.inl (if_neg hk)
      · rw [Table.lookup_insert_eq] at ha
        by_cases hk : k = k₀
        · subst hk
          rw [if_pos rfl] at ha
          obtain rfl := Option.some.inj ha
          exact Or.inr ⟨b, later, hb, hafter⟩
        · rw [if_neg hk] at ha
          exact Or.inr ⟨a, later, ha, hafter⟩

theorem lookup_addAnchor (t : AnchorTable) (keyId : String) (keyTag : UInt16) (algorithm : UInt8)
    (publicKey : List UInt8) (now : Nat) (saved : Except String Unit) (k : String) :
    (addAnchor t keyId keyTag algorithm publicKey now saved).1.lookup k = t.lookup k ∨
    k = keyId ∧ t.lookup k = none ∧
      (addAnchor t keyId keyTag algorithm publicKey now saved).1.lookup k =
        some (TrustAnchor.new k keyTag algorithm publicKey now) := by
  unfold addAnchor
  cases hl : t.lookup keyId with
  | some a => exact Or.inl rfl
  | none =>
    simp only [Table.lookup_insert_eq]
    by_cases hk : k = keyId
    · subst hk
      exact Or.inr ⟨rfl, hl, if_pos rfl⟩
    · exact Or.inl (if_neg hk)

/-- The last row of each key id is the one that stays. -/
theorem lookup_loadAnchors (rows : List TrustAnchor) (t : AnchorTable) (k : String) :
    (loadAnchors t rows).lookup k = t.lookup k ∧ (∀ row ∈ rows, row.keyId ≠ k) ∨
    ∃ pre row post, rows = pre ++ row :: post ∧ (∀ r ∈ post, r.keyId ≠ row.keyId) ∧
      row.keyId = k ∧ (loadAnchors t rows).lookup k = some row := by
  induction rows generalizing t with
  | nil => exact Or.inl ⟨rfl, by simp⟩
  | cons row rows ih =>
    have hcons : loadAnchors t (row :: rows) = loadAnchors (t.insert row.keyId row) rows := rfl
    rw [hcons]
    rcases ih (t.insert row.keyId row) with ⟨hsame, hnone⟩ | ⟨pre, row', post, rfl,
      hlast, hid, hfound⟩
    · rw [hsame, Table.lookup_insert_eq]
      by_cases hk : k = row.keyId
      · exact Or.inr ⟨[], row, rows, rfl, by rwa [← hk], hk.symm, if_pos hk⟩
      · refine Or.inl ⟨if_neg hk, ?_⟩
        intro r hr
        rcases List.mem_cons.mp hr with rfl | hr
        · exact fun h => hk h.symm
        · exact hnone r hr
    · exact Or.inr ⟨row :: pre, row', post, rfl, hlast, hid, hfound⟩

theorem lookup_loadAnchors_last (t : AnchorTable) (pre : List TrustAnchor) (row : TrustAnchor)
    {post : List TrustAnchor} (hlast : ∀ r ∈ post, r.keyId ≠ row.keyId) :
    (loadAnchors t (pre ++ row :: post)).lookup row.keyId = some row := by
  have hsplit : loadAnchors t (pre ++ row :: post) =
      loadAnchors ((loadAnchors t pre).insert row.keyId row) post := by
    simp [loadAnchors]
  rw [hsplit]
  rcases lookup_loadAnchors post ((loadAnchors t pre).insert row.keyId row) row.keyId with
    ⟨hsame, -⟩ | ⟨pre', row', post', rfl, -, hid, -⟩
  · rw [hsame, AList.lookup_insert]
  · exact absurd hid (hlast row' (by simp))

theorem lookup_loadInitialAnchorsFromFile (records : List (UInt16 × UInt8 × List UInt8))
    (t : AnchorTable) (now : Nat) (k : String) :
    (loadInitialAnchorsFromFile t now records).lookup k = t.lookup k ∨
    ∃ record ∈ records, t.lookup k = none ∧
      (loadInitialAnchorsFromFile t now records).lookup k =
        some { TrustAnchor.new k record.1 record.2.1 record.2.2 now with
          firstSeenAt := some now } := by
  induction records generalizing t with
  | nil => exact Or.inl rfl
  | cons record records ih =>
    obtain ⟨keyTag, algorithm, publicKey⟩ := record
    simp only [loadInitialAnchorsFromFile]
    cases hl : t.lookup (TrustAnchor.generateKeyId keyTag algorithm) with
    | some a =>
      rcases ih t with hsame | ⟨record, hmem, hnone, hfound⟩
      · exact Or.inl hsame
      · exact Or.inr ⟨record, by simp [hmem], hnone, hfound⟩
    | none =>
      simp only
      generalize hnew : ({ TrustAnchor.new (TrustAnchor.generateKeyId keyTag algorithm) keyTag
        algorithm publicKey now with firstSeenAt := some now } : TrustAnchor) = anchor
      rcases ih (t.insert (TrustAnchor.generateKeyId keyTag algorithm) anchor) with
        hsame | ⟨record, hmem, hnone, hfound⟩
      · rw [hsame, Table.lookup_insert_eq]
        by_cases hk : k = TrustAnchor.generateKeyId keyTag algorithm
        · subst hk
          exact Or.inr ⟨(keyTag, algorithm, publicKey), by simp, hl, by rw [if_pos rfl, hnew]⟩
        · exact Or.inl (if_neg hk)
      · rw [Table.lookup_insert_eq] at hnone
        by_cases hk : k = TrustAnchor.generateKeyId keyTag algorithm
        · rw [if_pos hk] at hnone
          cases hnone
        · rw [if_neg hk] at hnone
          exact Or.inr ⟨record, by simp [hmem], hnone, hfound⟩

/-- What an operation can do to the entry of the key `k`: the entry before and
    the entry after. -/
inductive EntryMove (dsDigest : DsDigest) (config : TrustAnchorConfig) (op : LifecycleOp)
    (k : String) : Option TrustAnchor → Option TrustAnchor → Prop where
  | keeps (entry : Option TrustAnchor) : EntryMove dsDigest config op k entry entry
  | created (keyTag : UInt16) (algorithm : UInt8) (publicKey : List UInt8) (now : Nat) :
      op = .manager (.observeDnskeyAtRoot keyTag algorithm publicKey false now) →
      k = TrustAnchor.generateKeyId keyTag algorithm →
      EntryMove dsDigest config op k none (some
        { keyId := k, keyTag, algorithm, publicKey, state := .seen, addedAt := now,
          lastSeen := now, trustPoint := 0, firstSeenAt := some now, pendingSince := none,
          revokedAt := none, removedAt := none })
  | observed (keyTag : UInt16) (algorithm : UInt8) (publicKey : List UInt8) (isRevoked : Bool)
      (now : Nat) (a : TrustAnchor) :
      op = .manager (.observeDnskeyAtRoot keyTag algorithm publicKey isRevoked now) →
      k = TrustAnchor.generateKeyId keyTag algorithm →
      EntryMove dsDigest config op k (some a) (some (a.observe keyTag publicKey isRevoked now).1)
  | checked (keyTag : UInt16) (algorithm digestType : UInt8) (digest : List UInt8)
      (keytags : Option (List UInt16)) (now : Nat) (a : TrustAnchor) :
      op = .manager (.trustAnchorCheck keyTag algorithm digestType digest keytags now) →
      k = TrustAnchor.generateKeyId keyTag algorithm →
      EntryMove dsDigest config op k (some a)
        (some (a.check dsDigest config keyTag algorithm digestType digest keytags now).1)
  | updated (now : Nat) (expiryNow : String → Nat) (done : Nat) (a : TrustAnchor) :
      op = .manager (.processRfc5011Updates now expiryNow done) →
      EntryMove dsDigest config op k (some a) (a.update config now (expiryNow k)).1
  | removed (saved : Except String Unit) (a : TrustAnchor) :
      op = .manager (.removeAnchor k saved) →
      EntryMove dsDigest config op k (some a) (some { a with state := .revoked })
  | revoked (tags : List (UInt16 × Nat)) (now : Nat) (a : TrustAnchor) :
      op = .manager (.checkForRevokedKeys tags) →
      EntryMove dsDigest config op k (some a)
        (some { a with state := .revoked, revokedAt := some now })
  | added (keyTag : UInt16) (algorithm : UInt8) (publicKey : List UInt8) (now : Nat)
      (saved : Except String Unit) : op = .addAnchor k keyTag algorithm publicKey now saved →
      EntryMove dsDigest config op k none
        (some (TrustAnchor.new k keyTag algorithm publicKey now))
  | loaded (pre : List TrustAnchor) (row : TrustAnchor) (post : List TrustAnchor)
      (entry : Option TrustAnchor) :
      op = .loadAnchors (pre ++ row :: post) → (∀ r ∈ post, r.keyId ≠ row.keyId) →
      row.keyId = k → EntryMove dsDigest config op k entry (some row)
  | configured (records : List (UInt16 × UInt8 × List UInt8)) (now : Nat)
      (record : UInt16 × UInt8 × List UInt8) :
      op = .loadInitialAnchorsFromFile records now → record ∈ records →
      EntryMove dsDigest config op k none (some
        { TrustAnchor.new k record.1 record.2.1 record.2.2 now with firstSeenAt := some now })

/-- **Inversion of a step.** -/
theorem entryMove_of_step {allowed : Nat → LifecycleOp → Prop} {m m' : Manager}
    {op : LifecycleOp} (hstep : (lifecycleSystem dsDigest config allowed).step m op m')
    (k : String) :
    EntryMove dsDigest config op k (m.anchors.lookup k) (m'.anchors.lookup k) := by
  obtain ⟨-, t, hperm, rfl⟩ := hstep
  rw [← hperm.lookup k]
  -- a lookup afterwards is one before, but for the cases of the operation's lemma
  cases op with
  | manager op =>
    cases op with
    | observeDnskeyAtRoot keyTag algorithm publicKey isRevoked now =>
      simp only [LifecycleOp.apply, ManagerOp.apply]
      rcases lookup_observeDnskeyAtRoot t keyTag algorithm publicKey isRevoked now k with
        hsame | ⟨hk, ⟨a, ha, hafter⟩ | ⟨hnone, rfl, hafter⟩⟩
      · rw [hsame]
        exact .keeps _
      · rw [ha, hafter]
        exact .observed keyTag algorithm publicKey isRevoked now a rfl hk
      · rw [hnone, hafter]
        exact .created keyTag algorithm publicKey now rfl hk
    | trustAnchorCheck keyTag algorithm digestType digest keytags now =>
      simp only [LifecycleOp.apply, ManagerOp.apply, lookup_trustAnchorCheck]
      by_cases hk : k = TrustAnchor.generateKeyId keyTag algorithm
      · rw [if_pos hk]
        cases t.lookup k with
        | none => exact .keeps _
        | some a => exact .checked keyTag algorithm digestType digest keytags now a rfl hk
      · rw [if_neg hk]
        exact .keeps _
    | processRfc5011Updates now expiryNow done =>
      simp only [LifecycleOp.apply, ManagerOp.apply, processRfc5011Updates, Table.lookup_traverse]
      cases t.lookup k with
      | none => exact .keeps _
      | some a => exact .updated now expiryNow done a rfl
    | removeAnchor keyId saved =>
      simp only [LifecycleOp.apply, ManagerOp.apply, lookup_removeAnchor]
      by_cases hk : k = keyId
      · subst hk
        rw [if_pos rfl]
        cases t.lookup k with
        | none => exact .keeps _
        | some a => exact .removed saved a rfl
      · rw [if_neg hk]
        exact .keeps _
    | checkForRevokedKeys tags =>
      simp only [LifecycleOp.apply, ManagerOp.apply]
      rcases lookup_checkForRevokedKeys tags t k with hsame | ⟨a, now, ha, hafter⟩
      · rw [hsame]
        exact .keeps _
      · rw [ha, hafter]
        exact .revoked tags now a rfl
  | addAnchor keyId keyTag algorithm publicKey now saved =>
    simp only [LifecycleOp.apply]
    rcases lookup_addAnchor t keyId keyTag algorithm publicKey now saved k with
      hsame | ⟨rfl, hnone, hafter⟩
    · rw [hsame]
      exact .keeps _
    · rw [hnone, hafter]
      exact .added keyTag algorithm publicKey now saved rfl
  | loadAnchors rows =>
    simp only [LifecycleOp.apply]
    rcases lookup_loadAnchors rows t k with
      ⟨hsame, -⟩ | ⟨pre, row, post, rfl, hlast, hid, hafter⟩
    · rw [hsame]
      exact .keeps _
    · rw [hafter]
      exact .loaded pre row post _ rfl hlast hid
  | loadInitialAnchorsFromFile records now =>
    simp only [LifecycleOp.apply]
    rcases lookup_loadInitialAnchorsFromFile records t now k with
      hsame | ⟨record, hmem, hnone, hafter⟩
    · rw [hsame]
      exact .keeps _
    · rw [hnone, hafter]
      exact .configured records now record rfl hmem

/-- An operation on a known anchor keeps its identity. -/
theorem keyId_observe (a : TrustAnchor) (keyTag : UInt16) (publicKey : List UInt8)
    (isRevoked : Bool) (now : Nat) :
    (a.observe keyTag publicKey isRevoked now).1.keyId = a.keyId := by
  simp only [TrustAnchor.observe]
  split_ifs <;> rfl

theorem keyId_check (a : TrustAnchor) (keyTag : UInt16) (algorithm digestType : UInt8)
    (digest : List UInt8) (keytags : Option (List UInt16)) (now : Nat) :
    (a.check dsDigest config keyTag algorithm digestType digest keytags now).1.keyId = a.keyId := by
  rcases check_eq a keyTag algorithm digestType digest keytags now with
    h | ⟨-, -, h⟩ | ⟨-, -, h⟩ | ⟨-, -, h⟩ <;> rw [h]

theorem keyId_update {a a' : TrustAnchor} {now expiryNow : Nat}
    (h : (a.update config now expiryNow).1 = some a') : a'.keyId = a.keyId := by
  rcases update_eq_some h with rfl | ⟨_, -, -, -, rfl⟩ | ⟨_, -, -, -, rfl⟩ | ⟨-, -, rfl⟩ <;> rfl

/-! ## Section 3: Revocation is final -/

/-- The anchor has been given up. -/
def TrustAnchor.Dead (a : TrustAnchor) : Prop := a.state = .revoked ∨ a.state = .removed

theorem dead_observe {a : TrustAnchor} (hdead : a.Dead) (keyTag : UInt16) (publicKey : List UInt8)
    (isRevoked : Bool) (now : Nat) : (a.observe keyTag publicKey isRevoked now).1.Dead := by
  simp only [TrustAnchor.observe]
  split_ifs with hkey hrev hnot hrevoked hmissing htrust
  · exact hdead
  · exact Or.inl rfl
  · exact hdead
  · exact Or.inl hrevoked
  -- a key that reappears without the REVOKE bit was `Missing`, not dead
  · exact hdead
  · rcases hdead with h | h <;> simp [h] at hmissing
  · exact hdead

theorem check_of_dead {a : TrustAnchor} (hdead : a.Dead) (keyTag : UInt16)
    (algorithm digestType : UInt8) (digest : List UInt8) (keytags : Option (List UInt16))
    (now : Nat) :
    (a.check dsDigest config keyTag algorithm digestType digest keytags now).1 = a := by
  rcases hdead with h | h <;> simp [TrustAnchor.check, h]

theorem dead_update {a a' : TrustAnchor} (hdead : a.Dead) {now expiryNow : Nat}
    (h : (a.update config now expiryNow).1 = some a') : a'.Dead := by
  rcases update_eq_some h with rfl | ⟨_, hst, -⟩ | ⟨_, -, -, -, rfl⟩ | ⟨hst, -⟩
  · exact hdead
  · rcases hdead with h | h <;> simp [h] at hst
  · exact Or.inr rfl
  · rcases hdead with h | h <;> simp [h] at hst

/-- `process_rfc5011_updates` deletes the entry of `keyId`. -/
def Purges (dsDigest : DsDigest) (config : TrustAnchorConfig) (m : Manager) (op : LifecycleOp)
    (keyId : String) : Prop :=
  (∃ now expiryNow done, op = .manager (.processRfc5011Updates now expiryNow done)) ∧
  m.anchors.lookup keyId ≠ none ∧ (op.apply dsDigest config m.anchors).lookup keyId = none

/-- **Step lemma.** A dead anchor is purged or stays dead, unless it is
    overwritten by a row of the saved table. -/
theorem dead_of_step {allowed : Nat → LifecycleOp → Prop} {m m' : Manager} {op : LifecycleOp}
    (hstep : (lifecycleSystem dsDigest config allowed).step m op m') (hload : ¬ op.IsLoad)
    {keyId : String} {a : TrustAnchor} (ha : m.anchors.lookup keyId = some a) (hdead : a.Dead) :
    Purges dsDigest config m op keyId ∨
    ∃ a', m'.anchors.lookup keyId = some a' ∧ a'.Dead := by
  have hmove := entryMove_of_step hstep keyId
  rw [ha] at hmove
  generalize hafter : m'.anchors.lookup keyId = after at hmove
  cases hmove with
  | keeps => exact Or.inr ⟨a, rfl, hdead⟩
  | observed keyTag algorithm publicKey isRevoked now =>
    exact Or.inr ⟨_, rfl, dead_observe hdead keyTag publicKey isRevoked now⟩
  | checked keyTag algorithm digestType digest keytags now =>
    rw [check_of_dead hdead]
    exact Or.inr ⟨a, rfl, hdead⟩
  | updated now expiryNow done _ hop =>
    cases hup : (a.update config now (expiryNow keyId)).1 with
    | some a' => exact Or.inr ⟨a', rfl, dead_update hdead hup⟩
    | none =>
      subst hop
      refine Or.inl ⟨⟨now, expiryNow, done, rfl⟩, by simp [ha], ?_⟩
      show (Table.traverse _ _).lookup keyId = none
      rw [Table.lookup_traverse, ha]
      exact hup
  | removed => exact Or.inr ⟨_, rfl, Or.inl rfl⟩
  | revoked => exact Or.inr ⟨_, rfl, Or.inl rfl⟩
  | loaded pre row post _ hop =>
    subst hop
    exact absurd trivial hload

/-- The key of an entry is the identity of its anchor. -/
theorem keyId_of_exec {allowed : Nat → LifecycleOp → Prop} {tr : List (Manager × LifecycleOp)}
    {m : Manager} (h : (lifecycleSystem dsDigest config allowed).Exec tr m) :
    ∀ k a, m.anchors.lookup k = some a → a.keyId = k := by
  refine System.Exec.invariant (fun m => ∀ k a, m.anchors.lookup k = some a → a.keyId = k) ?_ ?_ h
  · intro m hinit k a ha
    rw [show m.anchors = ∅ from hinit, AList.lookup_empty] at ha
    exact absurd ha (by simp)
  · intro m op m' hinv hstep k a' ha'
    have hmove := entryMove_of_step hstep k
    rw [ha'] at hmove
    generalize hbefore : m.anchors.lookup k = before at hmove
    generalize hafter : some a' = after at hmove
    cases hmove with
    | keeps => exact hinv k a' (hbefore.trans hafter.symm)
    | created => rw [Option.some.inj hafter]
    | observed keyTag algorithm publicKey isRevoked now a =>
      rw [Option.some.inj hafter, keyId_observe]
      exact hinv k a hbefore
    | checked keyTag algorithm digestType digest keytags now a =>
      rw [Option.some.inj hafter, keyId_check]
      exact hinv k a hbefore
    | updated now expiryNow done a =>
      rw [keyId_update hafter.symm]
      exact hinv k a hbefore
    | removed saved a =>
      rw [Option.some.inj hafter]
      exact hinv k a hbefore
    | revoked tags now a =>
      rw [Option.some.inj hafter]
      exact hinv k a hbefore
    | added => rw [Option.some.inj hafter]; rfl
    | loaded pre row post entry _ _ hid => rw [Option.some.inj hafter, hid]
    | configured => rw [Option.some.inj hafter]; rfl

theorem mem_getTrustedAnchors {anchors : AnchorTable} {b : TrustAnchor}
    (h : b ∈ getTrustedAnchors anchors) :
    b.state = .valid ∧ ∃ k, anchors.lookup k = some b := by
  obtain ⟨hmem, htrusted⟩ := List.mem_filter.mp h
  obtain ⟨⟨k, _⟩, hentry, rfl⟩ := List.mem_map.mp hmem
  exact ⟨of_decide_eq_true htrusted, k, AList.mem_lookup_iff.mpr hentry⟩

/-- **Revocation is final.** From every reachable state, and for every
    further sequence of operations that loads no anchors from a file: an
    anchor that is revoked or removed has been purged by
    `process_rfc5011_updates` in between, or it is still revoked or removed
    and no trusted anchor has its key id. -/
theorem revocation_final (dsDigest : DsDigest) (config : TrustAnchorConfig)
    {tr tr' : List (Manager × LifecycleOp)} {m m' : Manager}
    (hexec : (lifecycleSystem dsDigest config anyOp).Exec tr m)
    (hsteps : (lifecycleSystem dsDigest config anyOp).Steps m tr' m')
    (hload : ∀ e ∈ tr', ¬ e.2.IsLoad)
    {keyId : String} {a : TrustAnchor} (ha : m.anchors.lookup keyId = some a)
    (hdead : a.state = .revoked ∨ a.state = .removed) :
    (∃ e ∈ tr', Purges dsDigest config e.1 e.2 keyId) ∨
    (∃ a', m'.anchors.lookup keyId = some a' ∧ (a'.state = .revoked ∨ a'.state = .removed)) ∧
      ∀ b ∈ getTrustedAnchors m'.anchors, b.keyId ≠ keyId := by
  have hrun : (∃ e ∈ tr', Purges dsDigest config e.1 e.2 keyId) ∨
      ∃ a', m'.anchors.lookup keyId = some a' ∧ a'.Dead := by
    refine System.Steps.history (fun tr' m' => (∀ e ∈ tr', ¬ e.2.IsLoad) →
      (∃ e ∈ tr', Purges dsDigest config e.1 e.2 keyId) ∨
      ∃ a', m'.anchors.lookup keyId = some a' ∧ a'.Dead) ?_ ?_ hsteps hload
    · intro _
      exact Or.inr ⟨a, ha, hdead⟩
    · intro tr₁ m₁ op m₂ ih hstep hload
      rcases ih fun e he => hload e (List.mem_append_left _ he) with
        ⟨e, he, hpurge⟩ | ⟨a₁, ha₁, hdead₁⟩
      · exact Or.inl ⟨e, List.mem_append_left _ he, hpurge⟩
      · rcases dead_of_step hstep (hload (m₁, op) (by simp)) ha₁ hdead₁ with hpurge | halive
        · exact Or.inl ⟨(m₁, op), by simp, hpurge⟩
        · exact Or.inr halive
  rcases hrun with hpurged | ⟨a', ha', hdead'⟩
  · exact Or.inl hpurged
  · refine Or.inr ⟨⟨a', ha', hdead'⟩, ?_⟩
    intro b hb hid
    obtain ⟨hvalid, k, hk⟩ := mem_getTrustedAnchors hb
    -- the trusted anchor would be the dead one
    obtain rfl : k = keyId := (keyId_of_exec (hexec.append hsteps) k b hk).symm.trans hid
    obtain rfl : b = a' := Option.some.inj (hk.symm.trans ha')
    rcases hdead' with h | h <;> simp [h] at hvalid

/-- Key 7 is revoked by its REVOKE bit, then seen again without it. -/
theorem revocation_final_key_seven :
    let config : TrustAnchorConfig := ⟨1, 30, 60, 7⟩
    let op₁ : LifecycleOp := .addAnchor "7-8" 7 8 [1, 2] 100 (.ok ())
    let op₂ : LifecycleOp := .manager (.observeDnskeyAtRoot 7 8 [1, 2] true 200)
    let op₃ : LifecycleOp := .manager (.observeDnskeyAtRoot 7 8 [1, 2] false 300)
    let t₁ := op₁.apply plainDigest config ∅
    let t₂ := op₂.apply plainDigest config t₁
    let t₃ := op₃.apply plainDigest config t₂
    (∃ e ∈ [((⟨t₂, 200⟩ : Manager), op₃)], Purges plainDigest config e.1 e.2 "7-8") ∨
    (∃ a', t₃.lookup "7-8" = some a' ∧ (a'.state = .revoked ∨ a'.state = .removed)) ∧
      ∀ b ∈ getTrustedAnchors t₃, b.keyId ≠ "7-8" := by
  intro config op₁ op₂ op₃ t₁ t₂ t₃
  have h₀ : (lifecycleSystem plainDigest config anyOp).Exec [] ⟨∅, 0⟩ := .nil rfl
  have h₁ : (lifecycleSystem plainDigest config anyOp).step ⟨∅, 0⟩ op₁ ⟨t₁, 100⟩ :=
    ⟨trivial, ∅, .refl _, rfl⟩
  have h₂ : (lifecycleSystem plainDigest config anyOp).step ⟨t₁, 100⟩ op₂ ⟨t₂, 200⟩ :=
    ⟨trivial, t₁, .refl _, rfl⟩
  have h₃ : (lifecycleSystem plainDigest config anyOp).step ⟨t₂, 200⟩ op₃ ⟨t₃, 300⟩ :=
    ⟨trivial, t₂, .refl _, rfl⟩
  have hrevoked : t₂.lookup "7-8" =
      some ⟨"7-8", 7, 8, [1, 2], .revoked, 100, 200, 100, none, none, some 200, none⟩ := by
    decide +kernel
  have hload : ∀ e ∈ [((⟨t₂, 200⟩ : Manager), op₃)], ¬ e.2.IsLoad := by
    intro e he
    obtain rfl := List.mem_singleton.mp he
    exact id
  exact revocation_final plainDigest config ((h₀.snoc h₁).snoc h₂) (.snoc .nil h₃) hload hrevoked
    (Or.inl rfl)

/-! ## Section 4: Timestamps -/

/-- The timestamp that belongs to the anchor's state is there. -/
structure TrustAnchor.Stamped (a : TrustAnchor) : Prop where
  pending : a.state = .pending → a.pendingSince ≠ none
  revoked : a.state = .revoked → a.revokedAt ≠ none
  removed : a.state = .removed → a.removedAt ≠ none

/-- From some time on the updater moves a revoked anchor to `Removed`, and
    purges a removed one. -/
structure TrustAnchor.Advances (config : TrustAnchorConfig) (a : TrustAnchor) : Prop where
  revoked : a.state = .revoked → ∃ t, ∀ now ≥ t, ∀ expiryNow,
    (a.update config now expiryNow).1 = some { a with state := .removed }
  removed : a.state = .removed → ∃ t, ∀ now ≥ t, ∀ expiryNow,
    (a.update config now expiryNow).1 = none

theorem TrustAnchor.Stamped.advances {a : TrustAnchor} (h : a.Stamped) : a.Advances config where
  revoked := by
    intro hst
    obtain ⟨r, hr⟩ := Option.ne_none_iff_exists'.mp (h.revoked hst)
    refine ⟨r + secsOfDays config.revocationGraceDays, ?_⟩
    intro now hnow expiryNow
    have hover : secsOfDays config.revocationGraceDays ≤ now - r := by omega
    simp [TrustAnchor.update, hst, hr, hover]
  removed := by
    intro hst
    obtain ⟨r, hr⟩ := Option.ne_none_iff_exists'.mp (h.removed hst)
    refine ⟨r + secsOfDays config.extendedRemovalDays, ?_⟩
    intro now hnow expiryNow
    have hover : secsOfDays config.extendedRemovalDays ≤ now - r := by omega
    simp [TrustAnchor.update, hst, hr, hover]

/-- The operation does not reach one of the two places that forget a
    timestamp, and reads no anchor that lacks one:
    * `remove_anchor` finds `revoked_at` set already;
    * `process_rfc5011_updates` finds `removed_at` set already in each
      revoked anchor whose grace period is over;
    * each row of the saved table that stays is stamped. -/
def KeepsStamps (config : TrustAnchorConfig) (anchors : AnchorTable) : LifecycleOp → Prop
  | .manager (.removeAnchor keyId _) => ∀ a, anchors.lookup keyId = some a → a.revokedAt ≠ none
  | .manager (.processRfc5011Updates now _ _) => ∀ k a revokedAt, anchors.lookup k = some a →
      a.state = .revoked → a.revokedAt = some revokedAt →
      secsOfDays config.revocationGraceDays ≤ now - revokedAt → a.removedAt ≠ none
  | .loadAnchors rows => ∀ pre row post, rows = pre ++ row :: post →
      (∀ r ∈ post, r.keyId ≠ row.keyId) → row.Stamped
  | _ => True

theorem stamped_observe {a : TrustAnchor} (h : a.Stamped) (keyTag : UInt16)
    (publicKey : List UInt8) (isRevoked : Bool) (now : Nat) :
    (a.observe keyTag publicKey isRevoked now).1.Stamped := by
  simp only [TrustAnchor.observe]
  split_ifs with hkey hrev hnot hrevoked hmissing htrust
  · exact h
  · exact ⟨by simp, by simp, by simp⟩
  · exact ⟨h.pending, h.revoked, h.removed⟩
  · exact ⟨h.pending, h.revoked, by simp⟩
  · exact ⟨h.pending, h.revoked, h.removed⟩
  · exact ⟨by simp, by simp, by simp⟩
  · exact ⟨h.pending, h.revoked, h.removed⟩

theorem stamped_check {a : TrustAnchor} (h : a.Stamped) (keyTag : UInt16)
    (algorithm digestType : UInt8) (digest : List UInt8) (keytags : Option (List UInt16))
    (now : Nat) :
    (a.check dsDigest config keyTag algorithm digestType digest keytags now).1.Stamped := by
  rcases @check_cases dsDigest config a keyTag algorithm digestType digest keytags now h.pending
    with hsame | ⟨-, -, -, hst, -, hsince⟩ | ⟨since, -, -, -, hvalid⟩
  · rw [hsame]
    exact h
  · exact ⟨fun _ => by simp [hsince], by simp [hst], by simp [hst]⟩
  · rw [hvalid]
    exact ⟨by simp, by simp, by simp⟩

theorem stamped_update {a : TrustAnchor} (h : a.Stamped) (now expiryNow : Nat) :
    (∀ a', (a.update config now expiryNow).1 = some a' → a'.Stamped) ↔
    ∀ revokedAt, a.state = .revoked → a.revokedAt = some revokedAt →
      secsOfDays config.revocationGraceDays ≤ now - revokedAt → a.removedAt ≠ none := by
  cases hst : a.state with
  | revoked =>
    obtain ⟨r, hr⟩ := Option.ne_none_iff_exists'.mp (h.revoked hst)
    by_cases hover : secsOfDays config.revocationGraceDays ≤ now - r
    · have hup : (a.update config now expiryNow).1 = some { a with state := .removed } := by
        simp [TrustAnchor.update, hst, hr, hover]
      constructor
      · intro hafter _ _ _ _
        exact (hafter _ hup).removed rfl
      · intro hset a' ha'
        obtain rfl := Option.some.inj (hup.symm.trans ha')
        exact ⟨by simp, by simp, fun _ => hset r rfl hr hover⟩
    · have hup : (a.update config now expiryNow).1 = some a := by
        simp [TrustAnchor.update, hst, hr, hover]
      constructor
      · intro _ r' _ hr' hover'
        obtain rfl := Option.some.inj (hr.symm.trans hr')
        exact absurd hover' hover
      · intro _ a' ha'
        obtain rfl := Option.some.inj (hup.symm.trans ha')
        exact h
  -- no other state is left for `Removed`
  | valid | seen | pending | removed | missing =>
    refine iff_of_true ?_ (by simp)
    intro a' ha'
    rcases update_eq_some ha' with rfl | ⟨_, -, -, -, rfl⟩ | ⟨_, hrevoked, -⟩ | ⟨-, -, rfl⟩
    · exact h
    · exact ⟨by simp, by simp, by simp⟩
    · simp [hst] at hrevoked
    · exact ⟨by simp, by simp, by simp⟩

/-- Every anchor of the table has its timestamp. -/
def AllStamped (anchors : AnchorTable) : Prop := ∀ k a, anchors.lookup k = some a → a.Stamped

/-- **Step lemma.** The condition on the state before a step is exactly what
    keeps the timestamps. -/
theorem allStamped_step {allowed : Nat → LifecycleOp → Prop} {m m' : Manager} {op : LifecycleOp}
    (hstep : (lifecycleSystem dsDigest config allowed).step m op m')
    (h : AllStamped m.anchors) :
    AllStamped m'.anchors ↔ KeepsStamps config m.anchors op := by
  constructor
  · -- a step into one of the two places leaves an anchor without its timestamp
    intro hafter
    obtain ⟨-, t, hperm, rfl⟩ := hstep
    cases op with
    | manager op =>
      cases op with
      | removeAnchor keyId saved =>
        intro a ha
        rw [← hperm.lookup] at ha
        refine (hafter keyId { a with state := .revoked } ?_).revoked rfl
        simp [LifecycleOp.apply, ManagerOp.apply, lookup_removeAnchor, ha]
      | processRfc5011Updates now expiryNow done =>
        intro k a revokedAt ha hst hr hover
        refine ((stamped_update (h k a ha) now (expiryNow k)).mp ?_) revokedAt hst hr hover
        intro a' ha'
        refine hafter k a' ?_
        show (Table.traverse t _).lookup k = some a'
        rw [Table.lookup_traverse, hperm.lookup, ha]
        exact ha'
      | observeDnskeyAtRoot | trustAnchorCheck | checkForRevokedKeys => trivial
    | loadAnchors rows =>
      intro pre row post hrows hlast
      subst hrows
      exact hafter row.keyId row (lookup_loadAnchors_last t pre row hlast)
    | addAnchor | loadInitialAnchorsFromFile => trivial
  · intro hkeeps k a' ha'
    have hmove := entryMove_of_step hstep k
    rw [ha'] at hmove
    generalize hbefore : m.anchors.lookup k = before at hmove
    generalize hafter : some a' = after at hmove
    cases hmove with
    | keeps => exact h k a' (hbefore.trans hafter.symm)
    | created =>
      rw [Option.some.inj hafter]
      exact ⟨by simp, by simp, by simp⟩
    | observed keyTag algorithm publicKey isRevoked now a =>
      rw [Option.some.inj hafter]
      exact stamped_observe (h k a hbefore) keyTag publicKey isRevoked now
    | checked keyTag algorithm digestType digest keytags now a =>
      rw [Option.some.inj hafter]
      exact stamped_check (h k a hbefore) keyTag algorithm digestType digest keytags now
    | updated now expiryNow done a hop =>
      subst hop
      refine (stamped_update (h k a hbefore) now (expiryNow k)).mpr ?_ a' hafter.symm
      intro revokedAt hst hr hover
      exact hkeeps k a revokedAt hbefore hst hr hover
    | removed saved a hop =>
      subst hop
      rw [Option.some.inj hafter]
      exact ⟨by simp, fun _ => hkeeps a hbefore, by simp⟩
    | revoked =>
      rw [Option.some.inj hafter]
      exact ⟨by simp, by simp, by simp⟩
    | added =>
      rw [Option.some.inj hafter]
      exact ⟨by simp [TrustAnchor.new], by simp [TrustAnchor.new], by simp [TrustAnchor.new]⟩
    | loaded pre row post entry hop hlast =>
      subst hop
      rw [Option.some.inj hafter]
      exact hkeeps pre row post rfl hlast
    | configured =>
      rw [Option.some.inj hafter]
      exact ⟨by simp [TrustAnchor.new], by simp [TrustAnchor.new], by simp [TrustAnchor.new]⟩

/-- **Timestamps are present exactly in runs that keep them.** Every anchor
    in every state of a run has the timestamp of its state, and so the
    updater moves it on at the end of its grace period, if and only if every
    operation of the run meets `KeepsStamps` in the state before it. -/
theorem timestamps_present_iff (dsDigest : DsDigest) (config : TrustAnchorConfig)
    {tr : List (Manager × LifecycleOp)} {m : Manager}
    (hexec : (lifecycleSystem dsDigest config anyOp).Exec tr m) :
    (∀ m₁ ∈ tr.map Prod.fst ++ [m], ∀ k a, m₁.anchors.lookup k = some a →
      a.Stamped ∧ a.Advances config) ↔
    ∀ e ∈ tr, KeepsStamps config e.1.anchors e.2 := by
  have hiff : (∀ m₁ ∈ tr.map Prod.fst ++ [m], AllStamped m₁.anchors) ↔
      ∀ e ∈ tr, KeepsStamps config e.1.anchors e.2 := by
    refine System.Exec.states_iff (fun m => AllStamped m.anchors)
      (fun m op => KeepsStamps config m.anchors op) ?_ ?_ hexec
    · intro m hinit k a ha
      rw [show m.anchors = ∅ from hinit, AList.lookup_empty] at ha
      exact absurd ha (by simp)
    · intro m op m' hstamped hstep
      exact allStamped_step hstep hstamped
  rw [← hiff]
  constructor
  · intro h m₁ hm₁ k a ha
    exact (h m₁ hm₁ k a ha).1
  · intro h m₁ hm₁ k a ha
    exact ⟨h m₁ hm₁ k a ha, (h m₁ hm₁ k a ha).advances⟩

/-- Key 7 is configured and then revoked by its REVOKE bit. -/
theorem timestamps_present_key_seven :
    let config : TrustAnchorConfig := ⟨1, 30, 60, 7⟩
    let op₁ : LifecycleOp := .addAnchor "7-8" 7 8 [1, 2] 100 (.ok ())
    let op₂ : LifecycleOp := .manager (.observeDnskeyAtRoot 7 8 [1, 2] true 200)
    let t₁ := op₁.apply plainDigest config ∅
    let t₂ := op₂.apply plainDigest config t₁
    ∀ m₁ ∈ [(⟨∅, 0⟩ : Manager), ⟨t₁, 100⟩, ⟨t₂, 200⟩], ∀ k a, m₁.anchors.lookup k = some a →
      a.Stamped ∧ a.Advances config := by
  intro config op₁ op₂ t₁ t₂
  have h₀ : (lifecycleSystem plainDigest config anyOp).Exec [] ⟨∅, 0⟩ := .nil rfl
  have h₁ : (lifecycleSystem plainDigest config anyOp).step ⟨∅, 0⟩ op₁ ⟨t₁, 100⟩ :=
    ⟨trivial, ∅, .refl _, rfl⟩
  have h₂ : (lifecycleSystem plainDigest config anyOp).step ⟨t₁, 100⟩ op₂ ⟨t₂, 200⟩ :=
    ⟨trivial, t₁, .refl _, rfl⟩
  refine (timestamps_present_iff plainDigest config ((h₀.snoc h₁).snoc h₂)).mpr ?_
  intro e he
  rcases List.mem_cons.mp he with rfl | he
  · trivial
  · obtain rfl := List.mem_singleton.mp he
    trivial

/-- After `add_anchor` and `remove_anchor` the anchor is revoked without a
    `revoked_at`, and the updater passes it over at any time. -/
theorem remove_anchor_forgets_revoked_at :
    let config : TrustAnchorConfig := ⟨1, 30, 60, 7⟩
    let op₁ : LifecycleOp := .addAnchor "7-8" 7 8 [1, 2] 100 (.ok ())
    let op₂ : LifecycleOp := .manager (.removeAnchor "7-8" (.ok ()))
    let t₁ := op₁.apply plainDigest config ∅
    let t₂ := op₂.apply plainDigest config t₁
    let a : TrustAnchor :=
      ⟨"7-8", 7, 8, [1, 2], .revoked, 100, 100, 100, none, none, none, none⟩
    (lifecycleSystem plainDigest config anyOp).Exec [(⟨∅, 0⟩, op₁), (⟨t₁, 100⟩, op₂)] ⟨t₂, 100⟩ ∧
    t₂.lookup "7-8" = some a ∧ ¬ a.Stamped ∧ ¬ a.Advances config ∧
    ∀ now expiryNow, a.update config now expiryNow = (some a, none) := by
  intro config op₁ op₂ t₁ t₂ a
  have h₀ : (lifecycleSystem plainDigest config anyOp).Exec [] ⟨∅, 0⟩ := .nil rfl
  have h₁ : (lifecycleSystem plainDigest config anyOp).step ⟨∅, 0⟩ op₁ ⟨t₁, 100⟩ :=
    ⟨trivial, ∅, .refl _, rfl⟩
  have h₂ : (lifecycleSystem plainDigest config anyOp).step ⟨t₁, 100⟩ op₂ ⟨t₂, 100⟩ :=
    ⟨trivial, t₁, .refl _, rfl⟩
  have hstuck : ∀ now expiryNow, a.update config now expiryNow = (some a, none) :=
    fun _ _ => rfl
  refine ⟨(h₀.snoc h₁).snoc h₂, by decide +kernel, ?_, ?_, hstuck⟩
  · intro h
    exact h.revoked rfl rfl
  · intro h
    obtain ⟨t, ht⟩ := h.revoked rfl
    have := ht t (Nat.le_refl t) 0
    rw [hstuck] at this
    exact absurd this (by decide)

end Synvoid.Dns
